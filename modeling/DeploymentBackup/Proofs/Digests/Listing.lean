import DeploymentBackup.Digests.Archive
import DeploymentBackup.Digests.Listing
import DeploymentBackup.Proofs.Text.Lines
import DeploymentBackup.Proofs.Text.Lossy
import Mathlib.Tactic.IntervalCases

namespace DeploymentBackup.Digests

open Text Archive

/-!
# Checksum output that was printed

A checksum tool prints the paths of files as they are. Read as one text, with whatever they hold
that is no character, its output has the record of these files.

* `Row`, `listing` — a line of output, and a whole output.
* `below` — a file under its path as the tools see it.
* `readLine_row` — what one line says.
* `ofListing_listing` — the record of a whole output.
-/

/-! ### Digests as text -/

theorem exists_hexDigit {message : Bytes} {c : Char}
    (h : c ∈ (Digest.sha256Hex message).toList) : ∃ n < 16, c = Nat.digitChar n := by
  rw [Digest.sha256Hex, hex, String.toList_ofList, List.mem_flatMap] at h
  obtain ⟨b, -, hc⟩ := h
  rw [hexByte, List.mem_cons, List.mem_singleton] at hc
  rcases hc with rfl | rfl
  · exact ⟨_, Nat.mod_lt _ (by decide), rfl⟩
  · exact ⟨_, Nat.mod_lt _ (by decide), rfl⟩

/-- No digit of a digest separates anything. -/
theorem sha256Hex_ne {message : Bytes} {c : Char} (h : c ∈ (Digest.sha256Hex message).toList) :
    c ≠ ' ' ∧ c ≠ '\n' := by
  obtain ⟨n, hn, rfl⟩ := exists_hexDigit h
  interval_cases n <;> decide

/-- A digest is in lower case. -/
theorem lowerAscii_sha256Hex (message : Bytes) :
    lowerAscii (Digest.sha256Hex message) = Digest.sha256Hex message := by
  have hdigit : ∀ c ∈ (Digest.sha256Hex message).toList, c.toLower = c := by
    intro c hc
    obtain ⟨n, hn, rfl⟩ := exists_hexDigit hc
    interval_cases n <;> decide
  rw [lowerAscii, List.map_congr_left hdigit, List.map_id', String.ofList_toList]

/-- A digest in upper case is the same one. -/
theorem lowerAscii_upperAscii_sha256Hex (message : Bytes) :
    lowerAscii (upperAscii (Digest.sha256Hex message)) = Digest.sha256Hex message := by
  have hdigit : ∀ c ∈ (Digest.sha256Hex message).toList, c.toUpper.toLower = c := by
    intro c hc
    obtain ⟨n, hn, rfl⟩ := exists_hexDigit hc
    interval_cases n <;> decide
  rw [lowerAscii, upperAscii, String.toList_ofList, List.map_map]
  show String.ofList ((Digest.sha256Hex message).toList.map fun c => c.toUpper.toLower) = _
  rw [List.map_congr_left hdigit, List.map_id', String.ofList_toList]

theorem sha256Hex_toList_ne_nil (message : Bytes) : (Digest.sha256Hex message).toList ≠ [] := by
  rw [Digest.sha256Hex, hex, String.toList_ofList]
  simp [Digest.sha256, Digest.Chain.bytes, Digest.wordBytes, hexByte]

/-! ### Lines -/

/-- The file under its path as the tools see it from inside the directory. -/
def below (file : File) : File :=
  ⟨encode "./" ++ file.path, file.contents⟩

/-- A line of checksum output about a file: its digest in letters of either case, the mark of binary
    mode if there is one, and how the line ends. -/
structure Row where
  file : File
  digest : String
  binary : Bool
  crlf : Bool
  right : lowerAscii digest = Digest.sha256Hex file.contents

namespace Row

/-- A line with the digest in lower case. -/
def lower (file : File) (binary crlf : Bool) : Row :=
  ⟨file, Digest.sha256Hex file.contents, binary, crlf, lowerAscii_sha256Hex file.contents⟩

/-- A line with the digest in upper case. -/
def upper (file : File) (binary crlf : Bool) : Row :=
  ⟨file, upperAscii (Digest.sha256Hex file.contents), binary, crlf,
    lowerAscii_upperAscii_sha256Hex file.contents⟩

/-- The bytes of a line. -/
def bytes (row : Row) : Bytes :=
  encode row.digest ++ encode (if row.binary then " *" else "  ") ++ (below row.file).path ++
    encode (if row.crlf then "\r\n" else "\n")

/-- The end of a line, as text. -/
def ending (row : Row) : List Char :=
  if row.crlf then ['\r', '\n'] else ['\n']

/-- The path in a line can be told from the end of the line. -/
structure Plain (row : Row) : Prop where
  line : 0x0A ∉ row.file.path
  last : row.file.path.getLast? ≠ some 0x0D

/-- The path in a line, as text. -/
def path (row : Row) : List Char :=
  '.' :: '/' :: decodeLossyChars row.file.path

/-- What is read of a line, without its end. -/
def text (row : Row) : List Char :=
  row.digest.toList ++ ' ' :: (if row.binary then '*' else ' ') :: row.path

end Row

/-- The output about files, one line for each of them. -/
def listing (rows : List Row) : Bytes :=
  rows.flatMap Row.bytes

section

variable {row : Row}

/-- A path below the directory is read by itself as it is in a line. -/
theorem decodeLossyChars_below (file : File) :
    decodeLossyChars (below file).path = '.' :: '/' :: decodeLossyChars file.path :=
  decodeLossyChars_text ['.', '/'] file.path

theorem entryOf_below (row : Row) :
    entryOf (below row.file) =
      (String.ofList row.path, Digest.sha256Hex row.file.contents) := by
  rw [entryOf, decodeLossy, decodeLossyChars_below]
  rfl

/-- Neither case of a digest separates anything. -/
theorem Row.digest_ne (row : Row) {c : Char} (h : c ∈ row.digest.toList) : c ≠ ' ' ∧ c ≠ '\n' := by
  have hlower : c.toLower ∈ (Digest.sha256Hex row.file.contents).toList := by
    rw [← row.right, lowerAscii, String.toList_ofList]
    exact List.mem_map_of_mem h
  refine ⟨?_, ?_⟩
  · rintro rfl
    exact (sha256Hex_ne hlower).1 rfl
  · rintro rfl
    exact (sha256Hex_ne hlower).2 rfl

theorem Row.digest_ne_nil (row : Row) : row.digest.toList ≠ [] := by
  intro hnil
  refine sha256Hex_toList_ne_nil row.file.contents ?_
  rw [← row.right, lowerAscii, hnil]
  rfl

theorem Row.Plain.not_mem_path (h : row.Plain) : '\n' ∉ row.path := by
  intro hmem
  simp only [Row.path, List.mem_cons, Char.reduceEq, false_or] at hmem
  obtain ⟨b, hb, hvalue⟩ := byte_of_mem (by decide) (by decide) hmem
  have hfeed : b = 0x0A := UInt8.toNat_inj.mp hvalue
  exact h.line (hfeed ▸ hb)

theorem Row.Plain.not_mem_text (h : row.Plain) : '\n' ∉ row.text := by
  intro hmem
  rw [Row.text, List.mem_append, List.mem_cons, List.mem_cons] at hmem
  rcases hmem with hmem | hmem | hmem | hmem
  · exact (row.digest_ne hmem).2 rfl
  · cases hmem
  · split at hmem <;> cases hmem
  · exact h.not_mem_path hmem

/-- The last character of a line is that of its path. -/
theorem Row.Plain.getLast?_text (h : row.Plain) : row.text.getLast? ≠ some '\r' := by
  have hlast : row.text.getLast? = ('/' :: decodeLossyChars row.file.path).getLast? := by
    rw [Row.text, Row.path, List.getLast?_append]
    simp [List.getLast?_cons]
  rw [hlast, List.getLast?_cons]
  intro hreturn
  cases hpath : (decodeLossyChars row.file.path).getLast? with
  | none =>
    rw [hpath] at hreturn
    cases hreturn
  | some c =>
    rw [hpath] at hreturn
    obtain ⟨b, hb, hvalue⟩ := getLast?_of_decodeLossyChars (by decide) (by decide)
      (hpath.trans (congrArg some (Option.some.inj hreturn)))
    have hcr : b = 0x0D := UInt8.toNat_inj.mp hvalue
    exact h.last (hcr ▸ hb)

/-- A line is read by itself, whatever follows it. -/
theorem decodeLossyChars_row (row : Row) (rest : Bytes) :
    decodeLossyChars (row.bytes ++ rest) = row.text ++ row.ending ++ decodeLossyChars rest := by
  have hmark : encode (if row.binary then " *" else "  ") =
      encodeChars [' ', if row.binary then '*' else ' '] := by
    cases row.binary <;> rfl
  have hending : encode (if row.crlf then "\r\n" else "\n") = encodeChars row.ending := by
    unfold Row.ending
    cases row.crlf <;> rfl
  -- The line end starts with a byte of ASCII, so nothing of it is taken into the path.
  have hpath : decodeLossyChars (row.file.path ++ (encodeChars row.ending ++ rest)) =
      decodeLossyChars row.file.path ++ decodeLossyChars (encodeChars row.ending ++ rest) := by
    unfold Row.ending
    cases row.crlf
    · exact decodeLossyChars_append (b := 0x0A) (by decide) row.file.path rest
    · exact decodeLossyChars_append (b := 0x0D) (by decide) row.file.path (0x0A :: rest)
  have hbytes : row.bytes ++ rest =
      encodeChars (row.digest.toList ++ [' ', if row.binary then '*' else ' '] ++ ['.', '/']) ++
        (row.file.path ++ (encodeChars row.ending ++ rest)) := by
    rw [Row.bytes, hmark, hending, below]
    simp only [encode, encodeChars, List.flatMap_append, List.append_assoc]
    rfl
  rw [hbytes, decodeLossyChars_text, hpath, decodeLossyChars_text, Row.text, Row.path]
  simp only [List.append_assoc, List.cons_append, List.nil_append]

/-- A line is cut off where it ends, and its end is dropped. -/
theorem pieces_row (h : row.Plain) (rest : Bytes) :
    (pieces '\n' (decodeLossyChars (row.bytes ++ rest))).map dropReturn =
      row.text :: (pieces '\n' (decodeLossyChars rest)).map dropReturn := by
  have htext := h.not_mem_text
  have hreturn : '\n' ∉ row.text ++ ['\r'] := by
    rw [List.mem_append, List.mem_singleton]
    rintro (hc | hc)
    · exact htext hc
    · cases hc
  rw [decodeLossyChars_row, Row.ending]
  cases row.crlf with
  | false =>
    show ((pieces '\n' (row.text ++ ['\n'] ++ decodeLossyChars rest)).map dropReturn) = _
    rw [List.append_assoc, List.singleton_append, pieces_append htext, List.map_cons, dropReturn,
      if_neg h.getLast?_text]
  | true =>
    show ((pieces '\n' (row.text ++ ['\r', '\n'] ++ decodeLossyChars rest)).map dropReturn) = _
    rw [← List.singleton_append, ← List.append_assoc, List.append_assoc (_ ++ _),
      List.singleton_append, pieces_append hreturn, List.map_cons, dropReturn,
      if_pos List.getLast?_concat, List.dropLast_concat]

/-- A line says what digest the file under its path has. -/
theorem readLine_row (row : Row) :
    readLine row.text =
      .entry (String.ofList row.path) (Digest.sha256Hex row.file.contents) := by
  have hspace : ' ' ∉ row.digest.toList := fun hc => (row.digest_ne hc).1 rfl
  have hcut : cutAt ' ' row.text =
      some (row.digest.toList, (if row.binary then '*' else ' ') :: row.path) :=
    cutAt_append hspace _
  have hshown : ¬ row.text.all isBlank = true := by
    intro hblank
    have hdot : '.' ∈ row.text := by simp [Row.text, Row.path]
    exact absurd (List.all_eq_true.mp hblank '.' hdot) (by decide)
  have hpath : pathOf ((if row.binary then '*' else ' ') :: row.path) = row.path := by
    cases row.binary <;> rfl
  have hgiven : ¬ (row.digest.toList = [] ∨ row.path = [] ∨ row.path = ['-']) := by
    rintro (hnil | hnil | hdash)
    · exact row.digest_ne_nil hnil
    · cases hnil
    · cases hdash
  rw [readLine, if_neg hshown, hcut]
  simp only [hpath, if_neg hgiven, String.ofList_toList, row.right]

end

/-! ### A whole output -/

theorem readLines_listing {rows : List Row} (h : ∀ row ∈ rows, row.Plain) (d : Digests) :
    readLines d ((pieces '\n' (decodeLossyChars (listing rows))).map dropReturn) =
      .ok ((rows.map fun row => entryOf (below row.file)).foldl
        (fun d (path, digest) => d.insert path digest) d) := by
  induction rows generalizing d with
  | nil =>
    -- Behind the last line end there is an empty piece, which says nothing.
    rw [listing, List.flatMap_nil, decodeLossyChars]
    rfl
  | cons row rows ih =>
    obtain ⟨hrow, hrows⟩ := List.forall_mem_cons.mp h
    rw [listing, List.flatMap_cons, pieces_row hrow, readLines, readLine_row, List.map_cons,
      List.foldl_cons, entryOf_below]
    exact ih hrows _

/-- The output about files has the record of these files. -/
theorem ofListing_listing {rows : List Row} (h : ∀ row ∈ rows, row.Plain) :
    ofListing (decodeLossy (listing rows)) =
      .ok (ofFiles (rows.map fun row => below row.file)) := by
  rw [ofListing, decodeLossy, String.toList_ofList, readLines_listing h, ofFiles, ofList,
    List.map_map]
  rfl

end DeploymentBackup.Digests
