import DeploymentBackup.Archive.Reader
import DeploymentBackup.Proofs.Archive.Header

namespace DeploymentBackup.Archive

open Text

/-!
# Members of archives

The reader takes one member after another. Where it stands in front of a header that adds up, it
goes on behind the data of that member, whatever follows.

* `Fills` — data with the bytes behind it.
* `Announces` — the header of a member with data of that size.
* `Pending.with?` — a record more for the member to come.
* `Announces.readFrom_file`, `Announces.readFrom_record`, `Announces.readFrom_other` — one member,
  and the rest.
* `readFrom_file`, `readFrom_longName`, `readFrom_dataless` — what is written.
* `readFrom_emptyBlock`, `readFrom_endMark` — the end.
* `Members`, `readFrom_of_members` — a whole archive, whoever wrote it.
-/

/-! ### Data -/

/-- Data with the bytes that fill its last block; what these are does not matter. -/
structure Fills (data block : Bytes) : Prop where
  isPrefix : data <+: block
  length : block.length = data.length + paddingOf data.length

theorem fills_body (contents : Bytes) : Fills contents (body contents) where
  isPrefix := List.prefix_append _ _
  length := by rw [body, List.length_append, List.length_replicate]

theorem fills_nil : Fills [] [] :=
  ⟨List.prefix_rfl, rfl⟩

theorem Fills.take {data block : Bytes} (h : Fills data block) (rest : Bytes) :
    (block ++ rest).take data.length = data := by
  obtain ⟨padding, rfl⟩ := h.isPrefix
  rw [List.append_assoc, List.take_left]

/-- Data and what fills its last block are skipped as a whole. -/
theorem Fills.skip {data block : Bytes} (h : Fills data block) (rest : Bytes) :
    skip data.length (block ++ rest) = .ok rest := by
  have hwhole := h.length
  unfold Archive.skip
  rw [if_neg (by rw [List.length_append]; omega), ← hwhole, List.drop_left]

/-! ### Members -/

/-- An empty block declares no sum. -/
theorem not_empty_of_sum {header : Bytes} {sum : Nat}
    (h : octal? (field header 148 8) = some sum) : header.all (· == 0) = false := by
  rw [Bool.eq_false_iff]
  intro hzero
  have hcut : cut (field header 148 8) = [] := by
    cases hfield : field header 148 8 with
    | nil => rfl
    | cons b rest =>
      have hmem : b ∈ header :=
        List.mem_of_mem_drop (List.mem_of_mem_take
          (by rw [← field, hfield]; exact List.mem_cons_self))
      have hb : b = 0 := by simpa using List.all_eq_true.mp hzero b hmem
      rw [hb]
      rfl
  rw [octal?, hcut, decodeChars?] at h
  cases h

/-- The reader takes the member in front of it and goes on. -/
theorem readFrom_member {ending : Ending} {pending pending' : Pending} {header rest rest' : Bytes}
    {file : Option File} (hlength : header.length = blockSize)
    (hsum : octal? (field header 148 8) = some (headerSum header))
    (hread : readMember pending header rest = .ok (pending', file, rest'))
    (hrest : rest'.length ≤ rest.length) :
    readFrom ending pending (header ++ rest) =
      (readFrom ending pending' rest').map (file.toList ++ ·) := by
  have hne : header ++ rest ≠ [] := by
    intro hc
    rw [(List.append_eq_nil_iff.mp hc).1] at hlength
    cases hlength
  have hall : (header ++ rest).length = header.length + rest.length := List.length_append
  have hshorter : rest'.length < (header ++ rest).length := by
    rw [hall, hlength, blockSize]
    omega
  have htake : (header ++ rest).take blockSize = header := by rw [← hlength, List.take_left]
  have hdrop : (header ++ rest).drop blockSize = rest := by rw [← hlength, List.drop_left]
  -- The header declares a sum, so it is not the empty block at the end of an archive.
  rw [readFrom.eq_def, dif_neg hne, if_neg (by omega)]
  simp only [htake, hdrop, not_empty_of_sum hsum, hread, if_pos hshorter, Bool.false_eq_true,
    if_false]

/-- A block is the header of a member of this kind with data of this size, when the records in
    front of it are `pending`. -/
structure Announces (pending : Pending) (header : Bytes) (kind : Kind) (size : Nat) : Prop where
  length : header.length = blockSize
  sum : octal? (field header 148 8) = some (headerSum header)
  kind : kindOf header = kind
  size : pending.sizeFor header = .ok size

/-- The records for the member to come, with one more of that kind. No two of one kind describe the
    same member. -/
def Pending.with? (pending : Pending) (kind : Kind) (data : Bytes) : Option Pending :=
  match kind with
  | .longName => if pending.longName.isSome then none else some { pending with longName := data }
  | .longLink => if pending.longLink then none else some { pending with longLink := true }
  | .attributes =>
    if pending.attributes.isSome then none else some { pending with attributes := data }
  | _ => none

section

variable {ending : Ending} {pending pending' : Pending} {kind : Kind} {header data block : Bytes}

/-- The reader goes on behind a member with what it makes of its data. -/
theorem Announces.readFrom_eq (h : Announces pending header kind data.length) {file : Option File}
    {rest : Bytes}
    (hread : readMember pending header (block ++ rest) = .ok (pending', file, rest)) :
    readFrom ending pending (header ++ (block ++ rest)) =
      (readFrom ending pending' rest).map (file.toList ++ ·) :=
  readFrom_member h.length h.sum hread (by rw [List.length_append]; omega)

/-- A file is read under the path in its header, unless a record before it has given another. -/
theorem Announces.readFrom_file (h : Announces pending header .file data.length)
    (hfills : Fills data block) (rest : Bytes) :
    readFrom ending pending (header ++ (block ++ rest)) =
      (readFrom ending {} rest).map (⟨pending.pathFor header, data⟩ :: ·) := by
  have hread : readMember pending header (block ++ rest) =
      .ok ({}, some ⟨pending.pathFor header, data⟩, rest) := by
    unfold readMember
    rw [if_neg (by rw [h.sum]; exact fun hc => hc rfl), h.size, h.kind]
    simp only [hfills.take, hfills.skip, bind, Except.bind, pure, Except.pure]
  rw [h.readFrom_eq hread]
  rfl

/-- A record is kept for the member to come. -/
theorem Announces.readFrom_record (h : Announces pending header kind data.length)
    (hfills : Fills data block) (hkept : pending.with? kind data = some pending') (rest : Bytes) :
    readFrom ending pending (header ++ (block ++ rest)) = readFrom ending pending' rest := by
  have hread : readMember pending header (block ++ rest) = .ok (pending', none, rest) := by
    unfold readMember
    rw [if_neg (by rw [h.sum]; exact fun hc => hc rfl), h.size, h.kind]
    -- Each kind of record may be given once.
    unfold Pending.with? at hkept
    split at hkept
    · split at hkept
      · cases hkept
      · rename_i hfirst
        cases hkept
        simp only [hfills.take, hfills.skip, if_neg hfirst, bind, Except.bind, pure, Except.pure]
    · split at hkept
      · cases hkept
      · rename_i hfirst
        cases hkept
        simp only [hfills.skip, if_neg hfirst, bind, Except.bind, pure, Except.pure]
    · split at hkept
      · cases hkept
      · rename_i hfirst
        cases hkept
        simp only [hfills.take, hfills.skip, if_neg hfirst, bind, Except.bind, pure, Except.pure]
    · cases hkept
  rw [h.readFrom_eq hread]
  cases readFrom ending pending' rest <;> rfl

/-- Every other member is skipped, and the records in front of it go with it. -/
theorem Announces.readFrom_other (h : Announces pending header kind data.length)
    (hfills : Fills data block) (hskipped : kind = .other ∨ kind = .sharedAttributes)
    (rest : Bytes) :
    readFrom ending pending (header ++ (block ++ rest)) = readFrom ending {} rest := by
  have hread : readMember pending header (block ++ rest) = .ok ({}, none, rest) := by
    unfold readMember
    rw [if_neg (by rw [h.sum]; exact fun hc => hc rfl), h.size, h.kind]
    rcases hskipped with rfl | rfl
    · simp only [hfills.skip, bind, Except.bind, pure, Except.pure]
    · simp only [hfills.skip, bind, Except.bind, pure, Except.pure]
  rw [h.readFrom_eq hread]
  cases readFrom ending {} rest <;> rfl

end

/-! ### What is written -/

section

variable {name owner contents rest : Bytes} {ending : Ending} {pending : Pending}

/-- Every header that is written announces a member of its kind. -/
theorem announces_header (hpending : pending.attributes = none) (h : Named name owner) {size : Nat}
    (hsize : size < UInt64.size) {type : UInt8} {kind : Kind}
    (hkind : kindOf (header name owner size type) = kind) :
    Announces pending (header name owner size type) kind size where
  length := h.length_header size type
  sum := sum_header h size type
  kind := hkind
  size := by
    unfold Pending.sizeFor
    rw [size_header h hsize, hpending]
    simp only [Option.bind_none, Option.getD_none]
    split <;> rfl

theorem pathFor_fresh (header : Bytes) : Pending.pathFor {} header = nameOf header :=
  rfl

theorem pathFor_longName (path header : Bytes) :
    Pending.pathFor ⟨some (path ++ [0]), false, none⟩ header = path := by
  simp only [Pending.pathFor, dropNul, List.getLast?_concat, if_true, List.dropLast_concat]

theorem kind_file (h : Named name owner) (size : Nat) :
    kindOf (header name owner size 0) = .file := by
  rw [kindOf, type_header h]
  rfl

theorem readFrom_file (hpending : pending.attributes = none) (h : Named name owner)
    (hsize : contents.length < UInt64.size) :
    readFrom ending pending
        (header name owner contents.length 0 ++ (body contents ++ rest)) =
      (readFrom ending {} rest).map
        (⟨pending.pathFor (header name owner contents.length 0), contents⟩ :: ·) :=
  (announces_header hpending h hsize (kind_file h _)).readFrom_file (fills_body contents) rest

/-- A long path is written with a NUL behind it, as a member of its own. -/
theorem longName_eq (hsize : contents.length + 1 < UInt64.size) :
    ∃ header, longName contents = header ++ body (contents ++ [0]) ∧
      Announces {} header .longName (contents ++ [0]).length := by
  have hnamed : Named (encode "././@LongLink") (octalField 8 0 ++ octalField 8 0) :=
    ⟨by decide, by rw [List.length_append, length_octalField 7]⟩
  have hlength : (contents ++ [0]).length = contents.length + 1 := by simp
  have hkind : kindOf (header (encode "././@LongLink") (octalField 8 0 ++ octalField 8 0)
      (contents ++ [0]).length 0x4C) = .longName := by
    rw [kindOf, type_header hnamed, format_header hnamed]
    rfl
  rw [longName, ← hlength]
  exact ⟨_, rfl, announces_header rfl hnamed (hlength ▸ hsize) hkind⟩

/-- The path of a long record is kept for the next member. -/
theorem readFrom_longName (hsize : contents.length + 1 < UInt64.size) :
    readFrom ending {} (longName contents ++ rest) =
      readFrom ending ⟨some (contents ++ [0]), false, none⟩ rest := by
  obtain ⟨header, hname, hannounced⟩ := longName_eq hsize
  rw [hname, List.append_assoc]
  exact hannounced.readFrom_record (fills_body _) rfl rest

end

/-- The header of a hard link, a link or a directory that has no contents. -/
structure Dataless (header : Bytes) : Prop where
  length : header.length = blockSize
  sum : octal? (field header 148 8) = some (headerSum header)
  size : number? (field header 124 12) = some 0
  type : typeOf header = 0x31 ∨ typeOf header = 0x32 ∨ typeOf header = 0x35

theorem Dataless.announces {header : Bytes} (h : Dataless header) :
    Announces {} header .other 0 := by
  have hkind : kindOf header = .other := by
    rcases h.type with htype | htype | htype
    · rw [kindOf, htype]
      rfl
    · rw [kindOf, htype]
      rfl
    · rw [kindOf, htype]
      rfl
  refine ⟨h.length, h.sum, hkind, ?_⟩
  rw [Pending.sizeFor, h.size, hkind]
  rfl

/-- A header without contents leaves nothing behind. -/
theorem readFrom_dataless {header rest : Bytes} (h : Dataless header) (ending : Ending) :
    readFrom ending {} (header ++ rest) = readFrom ending {} rest :=
  h.announces.readFrom_other fills_nil (.inl rfl) rest

/-- A written header of that kind is skipped. -/
theorem dataless_header {name owner : Bytes} (h : Named name owner) {type : UInt8}
    (htype : type = 0x31 ∨ type = 0x32 ∨ type = 0x35) : Dataless (header name owner 0 type) where
  length := h.length_header 0 type
  sum := sum_header h 0 type
  size := size_header h (by decide) type
  type := by rwa [type_header h]

/-! ### The end -/

/-- An empty block ends an archive. -/
theorem readFrom_emptyBlock (ending : Ending) (rest : Bytes) :
    readFrom ending {} (List.replicate blockSize 0 ++ rest) = .ok [] := by
  have hlength : (List.replicate blockSize (0 : UInt8)).length = blockSize := List.length_replicate
  have hall : (List.replicate blockSize 0 ++ rest).length = blockSize + rest.length := by
    rw [List.length_append, hlength]
  have hne : List.replicate blockSize 0 ++ rest ≠ [] := by
    rw [← List.length_pos_iff, hall]
    exact Nat.lt_of_lt_of_le (by decide) (Nat.le_add_right blockSize rest.length)
  have hempty : (List.replicate blockSize (0 : UInt8)).all (· == 0) = true := by
    refine List.all_eq_true.mpr fun b hb => ?_
    rw [List.eq_of_mem_replicate hb]
    rfl
  rw [readFrom.eq_def, dif_neg hne, if_neg (by omega)]
  simp only [List.take_left' hlength, hempty, if_true]
  rfl

/-- The mark at the end of an archive ends it. -/
theorem readFrom_endMark (ending : Ending) : readFrom ending {} endMark = .ok [] := by
  have hmark : endMark = List.replicate blockSize 0 ++ List.replicate blockSize 0 := by
    rw [List.replicate_append_replicate, endMark, Nat.two_mul]
  rw [hmark, readFrom_emptyBlock]

/-! ### Whole archives -/

/-- Bytes that follow the records `pending` are members that end with the archive; the files among
    them are `files`. Members with a sparse map are left out. -/
inductive Members : Pending → Bytes → List File → Prop
  /-- The archive ends with the input. -/
  | nil : Members {} [] []
  /-- An empty block ends the archive, whatever follows. -/
  | mark (rest : Bytes) : Members {} (List.replicate blockSize 0 ++ rest) []
  /-- A file. -/
  | file {pending : Pending} {header data block rest : Bytes} {files : List File}
      (announced : Announces pending header .file data.length) (filled : Fills data block)
      (more : Members {} rest files) :
      Members pending (header ++ (block ++ rest)) (⟨pending.pathFor header, data⟩ :: files)
  /-- A record for the member to come. -/
  | record {pending pending' : Pending} {kind : Kind} {header data block rest : Bytes}
      {files : List File} (announced : Announces pending header kind data.length)
      (filled : Fills data block) (kept : pending.with? kind data = some pending')
      (more : Members pending' rest files) :
      Members pending (header ++ (block ++ rest)) files
  /-- A directory, a link, or anything else that is no file. -/
  | other {pending : Pending} {kind : Kind} {header data block rest : Bytes} {files : List File}
      (announced : Announces pending header kind data.length) (filled : Fills data block)
      (skipped : kind = .other ∨ kind = .sharedAttributes) (more : Members {} rest files) :
      Members pending (header ++ (block ++ rest)) files

theorem readFrom_nil : readFrom .clean {} [] = .ok [] := by
  rw [readFrom.eq_def]
  rfl

/-- The files of a well-formed archive are read, in their order. -/
theorem readFrom_of_members {pending : Pending} {bytes : Bytes} {files : List File}
    (h : Members pending bytes files) : readFrom .clean pending bytes = .ok files := by
  induction h with
  | nil => exact readFrom_nil
  | mark rest => exact readFrom_emptyBlock .clean rest
  | file announced filled _ ih =>
    rw [announced.readFrom_file filled, ih]
    rfl
  | record announced filled kept _ ih =>
    rw [announced.readFrom_record filled kept, ih]
  | other announced filled skipped _ ih =>
    rw [announced.readFrom_other filled skipped, ih]

/-- A file in front of an archive, under the name in its header. -/
theorem Members.cons_file {name owner contents rest : Bytes} {files : List File}
    (h : Named name owner) (hnul : 0 ∉ name) (hsize : contents.length < UInt64.size)
    (more : Members {} rest files) :
    Members {} (header name owner contents.length 0 ++ (body contents ++ rest))
      (⟨name, contents⟩ :: files) := by
  have hannounced : Announces {} (header name owner contents.length 0) .file contents.length :=
    announces_header rfl h hsize (kind_file h _)
  have hfile := Members.file hannounced (fills_body contents) more
  rwa [pathFor_fresh, name_header h hnul] at hfile

/-- A directory or a link in front of an archive. -/
theorem Members.cons_dataless {header rest : Bytes} {files : List File} (h : Dataless header)
    (more : Members {} rest files) : Members {} (header ++ rest) files :=
  .other h.announces fills_nil (.inl rfl) more

end DeploymentBackup.Archive
