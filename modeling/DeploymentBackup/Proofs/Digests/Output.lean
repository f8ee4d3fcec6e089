import DeploymentBackup.Digests.Listing
import DeploymentBackup.Proofs.Digests.Record
import DeploymentBackup.Proofs.Text.Lines

namespace DeploymentBackup.Digests

open Text

/-!
# Checksum output of any form

What a host prints may be any text. A line that is not blank is refused when it has no separator,
and then the whole output is; otherwise the record holds what the lines say, the last one about a
path deciding. A line with a separator that has nothing in front of it says nothing.

* `Divides`, `Says` — what a line holds, and what it says of a file.
* `LastSays` — what the last line about a path says.
* `readLine_eq_entry_iff`, `readLine_eq_malformed_iff` — one line.
* `readLines_get?` — the record of lines.
* `ofListing_exact` — the record of a whole output, or the line for which there is none.
* `ofListing_undigested` — a line without a digest is passed over.
-/

/-! ### What a line says -/

/-- The lines of an output without their ends, but for those that are blank. -/
def shownLines (output : String) : List (List Char) :=
  ((pieces '\n' output.toList).map dropReturn).filter fun line => !line.all isBlank

/-- A line has the digest in front of its first space and the path behind it. One more space, or one
    star, belongs to the separator. -/
inductive Divides : (line digest path : List Char) → Prop
  | text {digest path : List Char} (h : ' ' ∉ digest) :
    Divides (digest ++ ' ' :: ' ' :: path) digest path
  | binary {digest path : List Char} (h : ' ' ∉ digest) :
    Divides (digest ++ ' ' :: '*' :: path) digest path
  | single {digest path : List Char} (h : ' ' ∉ digest) (hspace : path.head? ≠ some ' ')
    (hstar : path.head? ≠ some '*') : Divides (digest ++ ' ' :: path) digest path

/-- A line says that a file has a digest: it has both, and the path is not the one for standard
    input. Digests are recorded in lower case. -/
def Says (line : List Char) (path digest : String) : Prop :=
  ∃ front back, Divides line front back ∧ front ≠ [] ∧ back ≠ [] ∧ back ≠ ['-'] ∧
    path = String.ofList back ∧ digest = lowerAscii (String.ofList front)

/-- No line says anything about a path. -/
def Silent (lines : List (List Char)) (path : String) : Prop :=
  ∀ line ∈ lines, ∀ name digest, Says line name digest → bare name ≠ bare path

/-- The last line that says anything about a path gives it a digest. -/
def LastSays (lines : List (List Char)) (path digest : String) : Prop :=
  ∃ before line after name, lines = before ++ line :: after ∧ Says line name digest ∧
    bare name = bare path ∧ Silent after path

section

variable {line digest path : List Char}

/-- A line is divided at its first space, and only there. -/
theorem divides_iff :
    Divides line digest path ↔
      ∃ rest, cutAt ' ' line = some (digest, rest) ∧ path = pathOf rest := by
  constructor
  · rintro (h | h | ⟨h, hspace, hstar⟩)
    · exact ⟨_, cutAt_append h _, rfl⟩
    · exact ⟨_, cutAt_append h _, rfl⟩
    · refine ⟨path, cutAt_append h path, ?_⟩
      unfold pathOf
      split
      · exact absurd rfl hspace
      · exact absurd rfl hstar
      · rfl
  · rintro ⟨rest, hcut, rfl⟩
    obtain ⟨rfl, h⟩ := cutAt_eq_some_iff.mp hcut
    unfold pathOf
    split
    · exact .text h
    · exact .binary h
    · rename_i hspace hstar
      -- No mark stands in front of the path.
      apply Divides.single h
      · intro hhead
        obtain ⟨tail, rfl⟩ := List.head?_eq_some_iff.mp hhead
        exact hspace tail rfl
      · intro hhead
        obtain ⟨tail, rfl⟩ := List.head?_eq_some_iff.mp hhead
        exact hstar tail rfl

theorem exists_divides (h : ' ' ∈ line) : ∃ digest path, Divides line digest path := by
  cases hcut : cutAt ' ' line with
  | none => exact absurd h (cutAt_eq_none_iff.mp hcut)
  | some parts => exact ⟨parts.1, pathOf parts.2, divides_iff.mpr ⟨parts.2, hcut, rfl⟩⟩

theorem Divides.unique (h : Divides line digest path) {digest' path' : List Char}
    (h' : Divides line digest' path') : digest = digest' ∧ path = path' := by
  obtain ⟨rest, hcut, rfl⟩ := divides_iff.mp h
  obtain ⟨rest', hcut', rfl⟩ := divides_iff.mp h'
  obtain ⟨rfl, rfl⟩ : digest = digest' ∧ rest = rest' := by simpa using hcut.symm.trans hcut'
  exact ⟨rfl, rfl⟩

theorem readLine_of_divides (h : Divides line digest path) (hshown : line.all isBlank = false) :
    readLine line =
      if digest = [] ∨ path = [] ∨ path = ['-'] then .nothing
      else .entry (String.ofList path) (lowerAscii (String.ofList digest)) := by
  obtain ⟨rest, hcut, rfl⟩ := divides_iff.mp h
  simp [readLine, hshown, hcut]

/-- A line that is not blank is refused exactly when it has no space. -/
theorem readLine_eq_malformed_iff (hshown : line.all isBlank = false) :
    readLine line = .malformed ↔ ' ' ∉ line := by
  by_cases hspace : ' ' ∈ line
  · obtain ⟨digest, path, h⟩ := exists_divides hspace
    rw [readLine_of_divides h hshown]
    split <;> simp [hspace]
  · simp [readLine, hshown, cutAt_eq_none_iff.mpr hspace, hspace]

/-- A line that is not blank is recorded as what it says. -/
theorem readLine_eq_entry_iff (hshown : line.all isBlank = false) {name found : String} :
    readLine line = .entry name found ↔ Says line name found := by
  constructor
  · intro h
    have hspace : ' ' ∈ line := by
      by_contra hspace
      rw [(readLine_eq_malformed_iff hshown).mpr hspace] at h
      cases h
    obtain ⟨digest, path, hdivides⟩ := exists_divides hspace
    rw [readLine_of_divides hdivides hshown] at h
    split at h
    · cases h
    · rename_i hgiven
      rw [not_or, not_or] at hgiven
      cases h
      exact ⟨digest, path, hdivides, hgiven.1, hgiven.2.1, hgiven.2.2, rfl, rfl⟩
  · rintro ⟨digest, path, hdivides, hdigest, hpath, hdash, rfl, rfl⟩
    simp [readLine_of_divides hdivides hshown, hdigest, hpath, hdash]

/-- A line says nothing when nothing stands in front of its first space, or no path of a file
    behind it. -/
theorem says_nothing_iff (h : Divides line digest path) :
    (∀ name found, ¬ Says line name found) ↔ digest = [] ∨ path = [] ∨ path = ['-'] := by
  constructor
  · intro hnothing
    by_contra hgiven
    rw [not_or, not_or] at hgiven
    exact hnothing _ _ ⟨digest, path, h, hgiven.1, hgiven.2.1, hgiven.2.2, rfl, rfl⟩
  · rintro hgone name found ⟨digest', path', h', hdigest, hpath, hdash, -, -⟩
    obtain ⟨rfl, rfl⟩ := h.unique h'
    exact hgone.elim hdigest (Or.rec hpath hdash)

end

/-! ### What lines say -/

section

variable {line : List Char} {lines : List (List Char)} {path digest : String}

theorem silent_cons :
    Silent (line :: lines) path ↔
      (∀ name digest, Says line name digest → bare name ≠ bare path) ∧ Silent lines path :=
  List.forall_mem_cons

/-- One more line in front decides only when no other line does. -/
theorem lastSays_cons :
    LastSays (line :: lines) path digest ↔ LastSays lines path digest ∨
      ((∃ name, Says line name digest ∧ bare name = bare path) ∧ Silent lines path) := by
  constructor
  · rintro ⟨before, line', after, name, hlines, hsaid, hname, hsilent⟩
    cases before with
    | nil =>
      obtain ⟨rfl, rfl⟩ : line = line' ∧ lines = after := by simpa using hlines
      exact .inr ⟨⟨name, hsaid, hname⟩, hsilent⟩
    | cons first before =>
      obtain ⟨-, rfl⟩ : line = first ∧ lines = before ++ line' :: after := by simpa using hlines
      exact .inl ⟨before, line', after, name, rfl, hsaid, hname, hsilent⟩
  · rintro (⟨before, line', after, name, rfl, hsaid, hname, hsilent⟩ |
      ⟨⟨name, hsaid, hname⟩, hsilent⟩)
    · exact ⟨line :: before, line', after, name, rfl, hsaid, hname, hsilent⟩
    · exact ⟨[], line, lines, name, rfl, hsaid, hname, hsilent⟩

end

/-! ### The record of lines -/

section

variable {d : Digests} {lines : List (List Char)}

/-- Blank lines do not count. -/
theorem readLines_shown (d : Digests) (lines : List (List Char)) :
    readLines d lines = readLines d (lines.filter fun line => !line.all isBlank) := by
  induction lines generalizing d with
  | nil => rfl
  | cons line rest ih =>
    cases hblank : line.all isBlank with
    | true => simp [readLines, readLine, hblank, ih]
    | false =>
      rw [List.filter_cons_of_pos (by simp [hblank]), readLines, readLines]
      cases readLine line <;> simp [ih]

/-- Lines that are not blank are refused for the first one that has no space. -/
theorem readLines_eq_error_iff (hshown : ∀ line ∈ lines, line.all isBlank = false) (fault : Fault) :
    readLines d lines = .error fault ↔
      ∃ line, lines.find? (' ' ∉ ·) = some line ∧
        fault = .malformed (trim (String.ofList line)) := by
  induction lines generalizing d with
  | nil => simp [readLines]
  | cons line rest ih =>
    obtain ⟨hline, hrest⟩ := List.forall_mem_cons.mp hshown
    by_cases hspace : ' ' ∈ line
    · rw [List.find?_cons_of_neg (by simpa using hspace), readLines]
      have hread := mt (readLine_eq_malformed_iff hline).mp (not_not.mpr hspace)
      cases hcase : readLine line with
      | nothing => exact ih hrest
      | entry name digest => exact ih hrest
      | malformed => exact absurd hcase hread
    · rw [List.find?_cons_of_pos (by simpa using hspace), readLines,
        (readLine_eq_malformed_iff hline).mpr hspace]
      simp [eq_comm]

/-- Lines that are not refused have a record. A path is looked up in it by what the last line about
    it says. -/
theorem readLines_get? (hshown : ∀ line ∈ lines, line.all isBlank = false)
    (hspace : ∀ line ∈ lines, ' ' ∈ line) :
    ∃ d', readLines d lines = .ok d' ∧ ∀ path digest,
      d'.get? path = some digest ↔
        LastSays lines path digest ∨ (Silent lines path ∧ d.get? path = some digest) := by
  -- What is recorded before the lines stays only for the paths that none of them names.
  induction lines generalizing d with
  | nil => exact ⟨d, rfl, by simp [LastSays, Silent]⟩
  | cons line rest ih =>
    obtain ⟨hline, hrest⟩ := List.forall_mem_cons.mp hshown
    obtain ⟨hhere, hlater⟩ := List.forall_mem_cons.mp hspace
    rw [readLines]
    cases hcase : readLine line with
    | nothing =>
      have hsaid : ∀ name digest, ¬ Says line name digest := by
        intro name digest hsaid
        rw [(readLine_eq_entry_iff hline).mpr hsaid] at hcase
        cases hcase
      obtain ⟨d', hread, hlookup⟩ := ih (d := d) hrest hlater
      refine ⟨d', hread, fun path digest => ?_⟩
      simp [hlookup, lastSays_cons, silent_cons, hsaid]
    | entry name digest =>
      have hsaid : ∀ name' digest', Says line name' digest' ↔ name' = name ∧ digest' = digest := by
        intro name' digest'
        rw [← readLine_eq_entry_iff hline, hcase]
        simp [eq_comm]
      obtain ⟨d', hread, hlookup⟩ := ih (d := d.insert name digest) hrest hlater
      refine ⟨d', hread, fun path found => ?_⟩
      have hlast : (∃ name', Says line name' found ∧ bare name' = bare path) ↔
          bare name = bare path ∧ digest = found := by
        simp [hsaid, eq_comm, and_comm]
      have hsilent : (∀ name' digest', Says line name' digest' → bare name' ≠ bare path) ↔
          bare name ≠ bare path := by
        simp [hsaid]
      rw [hlookup, get?_insert, lastSays_cons, silent_cons, hlast, hsilent]
      by_cases hname : bare name = bare path <;> simp [hname, and_comm]
    | malformed => exact absurd hhere ((readLine_eq_malformed_iff hline).mp hcase)

end

/-! ### A whole output -/

/-- Output is refused exactly when one of its lines that are not blank has no space, and the first
    one of these is reported. Otherwise it has a record, in which the last line about a path
    decides; and a line that is not blank says nothing exactly when it has nothing in front of its
    first space, or no path, or the path of standard input. -/
theorem ofListing_exact (output : String) :
    (∀ fault, ofListing output = .error fault ↔
      ∃ line, (shownLines output).find? (' ' ∉ ·) = some line ∧
        fault = .malformed (trim (String.ofList line))) ∧
    ((∀ line ∈ shownLines output, ' ' ∈ line) → ∃ d, ofListing output = .ok d ∧
      ∀ path digest, d.get? path = some digest ↔ LastSays (shownLines output) path digest) ∧
    (∀ line ∈ shownLines output, ' ' ∈ line → ∃ digest path, Divides line digest path ∧
      ((∀ name found, ¬ Says line name found) ↔ digest = [] ∨ path = [] ∨ path = ['-'])) := by
  have hshown : ∀ line ∈ shownLines output, line.all isBlank = false := by
    intro line hline
    simpa using (List.mem_filter.mp hline).2
  have hread : ofListing output = readLines empty (shownLines output) :=
    readLines_shown empty _
  refine ⟨fun fault => ?_, fun hspace => ?_, fun line _ hspace => ?_⟩
  · rw [hread]
    exact readLines_eq_error_iff hshown fault
  · obtain ⟨d, hok, hlookup⟩ := readLines_get? (d := empty) hshown hspace
    refine ⟨d, hread.trans hok, fun path digest => ?_⟩
    rw [hlookup]
    simp [get?, empty]
  · obtain ⟨digest, path, hdivides⟩ := exists_divides hspace
    exact ⟨digest, path, hdivides, says_nothing_iff hdivides⟩

/-- A line without a digest is no reason to refuse the output: the file `two` is passed over in
    silence. -/
theorem ofListing_undigested :
    let output := "aaa  one\n bbb  two\n"
    (∃ line ∈ shownLines output, Divides line [] "bbb  two".toList) ∧
      ofListing output = .ok (empty.insert "one" "aaa") := by
  refine ⟨⟨" bbb  two".toList, ?_, ?_⟩, ?_⟩
  · decide
  · apply divides_iff.mpr
    exact ⟨"bbb  two".toList, rfl, rfl⟩
  · rfl

end DeploymentBackup.Digests
