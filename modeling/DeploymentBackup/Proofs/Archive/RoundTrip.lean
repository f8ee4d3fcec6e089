import DeploymentBackup.Digests.Archive
import DeploymentBackup.Proofs.Archive.Members
import DeploymentBackup.Proofs.Archive.Paths

namespace DeploymentBackup.Archive

open Text

/-!
# Archives read back

The archive that is written of a list of files has the record of these files, and it keeps it when
directories and links are put in front of any of them.

* `Entry`, `splice` — files behind headers that hold no contents.
* `readFrom_splice` — the files of such an archive.
* `ofArchive_write` — the record of an archive that was written.
-/

/-- A file, with the headers that are put in front of it. -/
structure Entry where
  headers : List Bytes
  path : String
  contents : Bytes

/-- The file alone. -/
def Entry.file (e : Entry) : String × Bytes :=
  (e.path, e.contents)

/-- The entry without headers in front of it. -/
def Entry.bare (e : Entry) : Entry :=
  { e with headers := [] }

/-- The path and the contents have sizes of 64 bits, and the headers hold no contents. -/
structure Entry.Fits (e : Entry) : Prop where
  path : (encode e.path).length + 1 < UInt64.size
  contents : e.contents.length < UInt64.size
  headers : ∀ header ∈ e.headers, Dataless header

/-- The archive of the files of entries, with the headers in front of each of them. -/
def splice : List Entry → Option Bytes
  | [] => some endMark
  | e :: rest =>
    (file? e.path e.contents).bind fun blocks =>
      (splice rest).map fun more => e.headers.flatten ++ (blocks ++ more)

/-- The record of the files of entries, under their stored paths. -/
def recordOf (entries : List Entry) : Digests :=
  .ofList (entries.map fun e => (storedPath e.path, Digest.sha256Hex e.contents))

/-! ### Writing -/

theorem write?_cons (f : String × Bytes) (files : List (String × Bytes)) :
    write? (f :: files) =
      (file? f.1 f.2).bind fun blocks => (write? files).map (blocks ++ ·) := by
  obtain ⟨path, contents⟩ := f
  unfold write?
  rw [List.mapM_cons]
  simp only [Option.bind_eq_bind, Option.pure_def, Option.bind_assoc, Option.map_bind]
  refine Option.bind_congr fun blocks _ => Option.bind_congr fun more _ => ?_
  simp only [Option.bind_some, Function.comp_apply, Option.map_some, List.flatten_cons,
    List.append_assoc]

/-- Without headers, what is spliced is what is written. -/
theorem splice_bare (entries : List Entry) :
    splice (entries.map Entry.bare) = write? (entries.map Entry.file) := by
  induction entries with
  | nil => rfl
  | cons e rest ih =>
    rw [List.map_cons, List.map_cons, splice, ih, write?_cons]
    rfl

/-- An archive is made unless a path is refused. -/
theorem splice_isSome {entries : List Entry} (h : ∀ e ∈ entries, ¬ Refused e.path.toList) :
    ∃ bytes, splice entries = some bytes := by
  induction entries with
  | nil => exact ⟨endMark, rfl⟩
  | cons e rest ih =>
    obtain ⟨more, hmore⟩ := ih fun other hother => h other (List.mem_cons_of_mem _ hother)
    obtain ⟨blocks, hblocks⟩ := file?_isSome e.contents (h e List.mem_cons_self)
    refine ⟨e.headers.flatten ++ (blocks ++ more), ?_⟩
    rw [splice, hblocks, hmore]
    rfl

/-- No archive is made when a path is refused. -/
theorem splice_refused {entries : List Entry} (h : ∃ e ∈ entries, Refused e.path.toList) :
    splice entries = none := by
  obtain ⟨e, he, hrefused⟩ := h
  induction entries with
  | nil => cases he
  | cons first rest ih =>
    rw [splice]
    rcases List.mem_cons.mp he with rfl | he
    · rw [file?_refused e.contents hrefused]
      rfl
    · rw [ih he]
      cases file? first.path first.contents <;> rfl

/-! ### Reading -/

section

variable {path : String} {contents blocks rest : Bytes} {ending : Ending}

/-- The blocks of a file hold that file, whatever follows. -/
theorem readFrom_blocks (hblocks : file? path contents = some blocks)
    (hpath : (encode path).length + 1 < UInt64.size) (hcontents : contents.length < UInt64.size) :
    readFrom ending {} (blocks ++ rest) =
      (readFrom ending {} rest).map (⟨encode (storedPath path), contents⟩ :: ·) := by
  have haccepted : ¬ Refused path.toList := by
    intro hrefused
    rw [file?_refused contents hrefused] at hblocks
    cases hblocks
  by_cases hshort : Admissible path.toList ∧ (encodeChars (joined path.toList)).length ≤ 100
  · -- The stored name fits into the header.
    have hnamed : Named (encodeChars (joined path.toList)) [] := ⟨hshort.2, Nat.zero_le 16⟩
    rw [file?_short contents hshort.1 hshort.2] at hblocks
    cases hblocks
    -- The name ends where the first zero byte is, and the path has none.
    have hnul : '\x00' ∉ joined path.toList :=
      fun hc => hshort.1.2.2.1 ((joined_sublist hshort.1.1 hshort.1.2.1).subset hc)
    have hstored : encode (storedPath path) = encodeChars (joined path.toList) := by
      rw [storedPath, if_pos hshort, encode, String.toList_ofList]
    rw [List.append_assoc, readFrom_file rfl hnamed hcontents, pathFor_fresh,
      name_header hnamed (not_mem_encodeChars hnul), hstored]
  · -- The path has a member of its own in front of the header.
    obtain ⟨name, hnamed, hfile⟩ := file?_long contents haccepted hshort
    rw [hfile] at hblocks
    cases hblocks
    rw [List.append_assoc, List.append_assoc, readFrom_longName hpath,
      readFrom_file rfl hnamed hcontents, pathFor_longName, storedPath, if_neg hshort]

/-- Headers without contents leave nothing behind. -/
theorem readFrom_headers {headers : List Bytes} (h : ∀ header ∈ headers, Dataless header) :
    readFrom ending {} (headers.flatten ++ rest) = readFrom ending {} rest := by
  induction headers with
  | nil => rfl
  | cons header more ih =>
    rw [List.flatten_cons, List.append_assoc, readFrom_dataless (h header List.mem_cons_self),
      ih fun other hother => h other (List.mem_cons_of_mem _ hother)]

end

/-- The files of entries are read in their order, and nothing else is. -/
theorem readFrom_splice {entries : List Entry} (h : ∀ e ∈ entries, e.Fits) {bytes : Bytes}
    (hbytes : splice entries = some bytes) (ending : Ending) :
    readFrom ending {} bytes =
      .ok (entries.map fun e => ⟨encode (storedPath e.path), e.contents⟩) := by
  induction entries generalizing bytes with
  | nil =>
    cases hbytes
    exact readFrom_endMark ending
  | cons e rest ih =>
    obtain ⟨blocks, hblocks, hrest⟩ := Option.bind_eq_some_iff.mp hbytes
    obtain ⟨more, hmore, rfl⟩ := Option.map_eq_some_iff.mp hrest
    obtain ⟨hpath, hcontents, hheaders⟩ := h e List.mem_cons_self
    rw [readFrom_headers hheaders, readFrom_blocks hblocks hpath hcontents,
      ih (fun other hother => h other (List.mem_cons_of_mem _ hother)) hmore]
    rfl

/-- Files that were read under their stored paths have the record of their entries. -/
theorem ofFiles_stored (entries : List Entry) :
    Digests.ofFiles (entries.map fun e => ⟨encode (storedPath e.path), e.contents⟩) =
      recordOf entries := by
  unfold Digests.ofFiles recordOf
  rw [List.map_map]
  refine congrArg Digests.ofList (List.map_congr_left fun e _ => ?_)
  rw [Function.comp_apply, Digests.entryOf, decodeLossy_encode]

theorem ofArchive_splice {entries : List Entry} (h : ∀ e ∈ entries, e.Fits) {bytes : Bytes}
    (hbytes : splice entries = some bytes) :
    Digests.ofArchive bytes = .ok (recordOf entries) := by
  have hread := readFrom_splice h hbytes .clean
  unfold Digests.ofArchive Digests.ofSource readSource Source.of
  simp only [hread, ofFiles_stored]

/-- What is written of files whose paths are not refused has the record of these files. -/
theorem ofArchive_files {entries : List Entry}
    (h : ∀ e ∈ entries, e.Fits ∧ ¬ Refused e.path.toList) :
    Digests.ofArchive (write (entries.map Entry.file)) = .ok (recordOf entries) := by
  -- It is what is spliced without any header.
  have hbare : ∀ e ∈ entries.map Entry.bare, e.Fits ∧ ¬ Refused e.path.toList := by
    rintro _ hbare
    obtain ⟨e, he, rfl⟩ := List.mem_map.mp hbare
    obtain ⟨⟨hpath, hcontents, -⟩, haccepted⟩ := h e he
    exact ⟨⟨hpath, hcontents, fun header hheader => by cases hheader⟩, haccepted⟩
  have hrecord : recordOf (entries.map Entry.bare) = recordOf entries := by
    rw [recordOf, List.map_map]
    rfl
  obtain ⟨bytes, hbytes⟩ := splice_isSome fun e he => (hbare e he).2
  rw [write, ← splice_bare, hbytes, Option.getD_some,
    ofArchive_splice (fun e he => (hbare e he).1) hbytes, hrecord]

/-! ### The record of an archive -/

/-- An archive that is written of files whose paths are not refused has the record of these files,
    also with directories and links in front of any of them. Of other files nothing is written. -/
theorem ofArchive_write (entries : List Entry) :
    let files := entries.map Entry.file
    (∀ path, Admissible path → ¬ Refused path) ∧
      ((∀ e ∈ entries, e.Fits ∧ ¬ Refused e.path.toList) →
        Digests.ofArchive (write files) = .ok (recordOf entries) ∧
          ∃ bytes, splice entries = some bytes ∧
            Digests.ofArchive bytes = .ok (recordOf entries)) ∧
      ((∃ e ∈ entries, Refused e.path.toList) →
        write files = [] ∧ Digests.ofArchive (write files) = .ok .empty) := by
  intro files
  refine ⟨fun path => Admissible.not_refused, fun h => ⟨ofArchive_files h, ?_⟩, fun h => ?_⟩
  · -- With the headers of directories and links in front of them, the same files are read.
    obtain ⟨bytes, hbytes⟩ := splice_isSome fun e he => (h e he).2
    exact ⟨bytes, hbytes, ofArchive_splice (fun e he => (h e he).1) hbytes⟩
  · -- One refused path is enough for an empty archive.
    have hnone : write files = [] := by
      obtain ⟨e, he, hrefused⟩ := h
      rw [write, ← splice_bare, splice_refused ⟨e.bare, List.mem_map_of_mem he, hrefused⟩]
      rfl
    refine ⟨hnone, ?_⟩
    rw [hnone]
    unfold Digests.ofArchive Digests.ofSource readSource readFrom
    rfl

/-- A directory in front of a file is skipped, and nothing is written to the root. -/
theorem ofArchive_write_directory :
    let e : Entry := ⟨[header (encode "d/") [] 0 0x35], "./a", [1]⟩
    ∃ bytes, splice [e] = some bytes ∧
      Digests.ofArchive bytes = .ok (.ofList [("a", Digest.sha256Hex [1])]) ∧
      write [("/a", [1])] = [] := by
  intro e
  -- A directory in front of a file, and a path that is refused.
  have hnamed : Named (encode "d/") [] := ⟨by decide, by decide⟩
  have hfits : e.Fits := by
    refine ⟨by decide, by decide, fun h hh => ?_⟩
    rw [List.mem_singleton.mp hh]
    exact dataless_header hnamed (.inr (.inr rfl))
  have haccepted : ¬ Refused e.path.toList := by decide
  obtain ⟨-, hread, -⟩ := ofArchive_write [e]
  obtain ⟨-, bytes, hbytes, hrecord⟩ := hread fun e' he' => by
    rw [List.mem_singleton.mp he']
    exact ⟨hfits, haccepted⟩
  have hstored : storedPath "./a" = "a" := by decide
  have hentries : recordOf [e] = .ofList [("a", Digest.sha256Hex [1])] := by
    rw [recordOf, List.map_singleton, hstored]
  obtain ⟨-, -, hrefused⟩ := ofArchive_write [⟨[], "/a", [1]⟩]
  refine ⟨bytes, hbytes, hentries ▸ hrecord, ?_⟩
  exact (hrefused ⟨_, List.mem_singleton_self _, .inr (.inl (by decide))⟩).1

/-- A parent component behind the first hundred bytes of a path does not keep an archive from being
    written. -/
theorem write_parent_behind :
      let path := String.ofList (List.replicate 100 'b' ++ ['/', '.', '.', '/', 'c'])
    ¬ Admissible path.toList ∧ write [(path, [49])] ≠ [] := by
  intro path
  have hpath : path.toList = List.replicate 100 'b' ++ ['/', '.', '.', '/', 'c'] :=
    String.toList_ofList
  have haccepted : ¬ Refused path.toList := by
    rw [hpath]
    decide +kernel
  refine ⟨?_, ?_⟩
  · rw [hpath]
    decide +kernel
  · obtain ⟨blocks, hblocks⟩ := file?_isSome [49] haccepted
    have hwrite : write [(path, [49])] = blocks ++ endMark := by
      rw [write, write?_cons, hblocks]
      rfl
    have hmark : endMark ≠ [] := by
      rw [endMark, Ne, List.replicate_eq_nil_iff]
      decide
    rw [hwrite]
    exact fun hc => hmark (List.append_eq_nil_iff.mp hc).2

end DeploymentBackup.Archive
