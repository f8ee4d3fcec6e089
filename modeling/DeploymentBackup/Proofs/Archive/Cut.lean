import DeploymentBackup.Proofs.Archive.RoundTrip

namespace DeploymentBackup.Archive

open Text

/-!
# Archives that are cut

An archive that ends too early is read as if it were whole up to the member in which it ends. The
contents of that member are taken for what is there of them, and only the step to the next header
finds that something is missing: so no file counts before the bytes behind it were reached.

* `Announces.readFrom_take` — a member that is cut.
* `blocksOf`, `readFrom_take_blocks` — the blocks of a file, whole and cut.
* `offset` — where a file starts.
* `readFrom_front` — whole files in front of any bytes.
* `ofArchive_take` — the record of the first bytes of an archive, wherever it is cut.
-/

/-! ### Members -/

section

variable {pending : Pending} {kind : Kind} {header data block : Bytes}

/-- What is less than a header is not read. -/
theorem readFrom_short {bytes : Bytes} (hne : bytes ≠ []) (hshort : bytes.length < blockSize)
    (pending : Pending) : readFrom .clean pending bytes = .error .truncated := by
  rw [readFrom.eq_def, dif_neg hne, if_pos hshort]

/-- A record does not stand at the end of an archive. -/
theorem readFrom_orphan (h : pending.isEmpty = false) :
    readFrom .clean pending [] = .error .orphanRecord := by
  rw [readFrom.eq_def, dif_pos rfl]
  simp only [h, Bool.false_eq_true, if_false]

theorem skip_short {size : Nat} {rest : Bytes} (h : rest.length < size + paddingOf size) :
    skip size rest = .error .truncated := by
  unfold skip
  exact if_pos h

/-- The reader stops at a header when the member behind it cannot be read. -/
theorem readFrom_refused {rest : Bytes} {fault : Fault} (hlength : header.length = blockSize)
    (hsum : octal? (field header 148 8) = some (headerSum header))
    (hread : readMember pending header rest = .error fault) (ending : Ending) :
    readFrom ending pending (header ++ rest) = .error fault := by
  have hne : header ++ rest ≠ [] := by
    intro hc
    rw [(List.append_eq_nil_iff.mp hc).1] at hlength
    cases hlength
  have hall : ¬ (header ++ rest).length < blockSize := by
    rw [List.length_append]
    omega
  have htake : (header ++ rest).take blockSize = header := by rw [← hlength, List.take_left]
  have hdrop : (header ++ rest).drop blockSize = rest := by rw [← hlength, List.drop_left]
  rw [readFrom.eq_def, dif_neg hne, if_neg hall]
  simp only [htake, hdrop, not_empty_of_sum hsum, hread, Bool.false_eq_true, if_false]

/-- The contents of a member that are cut short are not followed by a header. -/
theorem Announces.readMember_short {size : Nat} (h : Announces pending header kind size)
    (hkind : kind ≠ .sparse) {rest : Bytes} (hshort : rest.length < size + paddingOf size) :
    ∃ fault, readMember pending header rest = .error fault := by
  unfold readMember
  rw [if_neg (by rw [h.sum]; exact fun hc => hc rfl), h.size, h.kind]
  -- A second record of one kind is refused before it is skipped.
  cases kind with
  | sparse => exact absurd rfl hkind
  | file | sharedAttributes | other =>
    simp only [skip_short hshort, bind, Except.bind]
    exact ⟨_, rfl⟩
  | longName | longLink | attributes =>
    simp only [skip_short hshort, bind, Except.bind]
    split
    · exact ⟨_, rfl⟩
    · exact ⟨_, rfl⟩

/-- A member that is cut is refused, wherever that is. -/
theorem Announces.readFrom_take (h : Announces pending header kind data.length)
    (hkind : kind ≠ .sparse) (hfills : Fills data block) {n : Nat} (hpos : 0 < n)
    (hcut : n < (header ++ block).length) :
    ∃ fault, readFrom .clean pending ((header ++ block).take n) = .error fault := by
  have hlength := h.length
  rw [List.length_append] at hcut
  rcases Nat.lt_or_ge n blockSize with hheader | hdata
  · -- The header itself is cut.
    have hshort : ((header ++ block).take n).length = n := by
      rw [List.length_take, List.length_append]
      omega
    refine ⟨_, readFrom_short ?_ (by omega) pending⟩
    exact List.ne_nil_of_length_pos (by omega)
  · -- The data or the bytes behind it are.
    have htake : (header ++ block).take n = header ++ block.take (n - blockSize) := by
      rw [List.take_append, List.take_of_length_le (by omega), hlength]
    have hshort : (block.take (n - blockSize)).length < data.length + paddingOf data.length := by
      rw [List.length_take, ← hfills.length]
      omega
    obtain ⟨fault, hread⟩ := h.readMember_short hkind hshort
    exact ⟨fault, by rw [htake, readFrom_refused h.length h.sum hread]⟩

end

/-! ### Files -/

/-- The blocks of a file. -/
def blocksOf (f : String × Bytes) : Bytes :=
  (file? f.1 f.2).getD []

/-- A file with an admissible path, whose path and contents have sizes of 64 bits. -/
structure Storable (f : String × Bytes) : Prop where
  path : Admissible f.1.toList
  pathFits : (encode f.1).length + 1 < UInt64.size
  contentsFit : f.2.length < UInt64.size

/-- The file alone, as an entry of an archive. -/
def Entry.of (f : String × Bytes) : Entry :=
  ⟨[], f.1, f.2⟩

theorem Storable.file? {f : String × Bytes} (h : Storable f) :
    Archive.file? f.1 f.2 = some (blocksOf f) := by
  obtain ⟨blocks, hblocks⟩ := file?_isSome f.2 h.path.not_refused
  rw [blocksOf, hblocks, Option.getD_some]

/-- A file that is cut is refused: in the record of its path, between this and its header, in the
    header, in its contents, or in what fills their last block. -/
theorem readFrom_take_blocks {f : String × Bytes} (h : Storable f) {n : Nat} (hpos : 0 < n)
    (hcut : n < (blocksOf f).length) :
    ∃ fault, readFrom .clean {} ((blocksOf f).take n) = .error fault := by
  obtain ⟨path, contents⟩ := f
  obtain ⟨hpath, hpathFits, hcontentsFit⟩ := h
  have hfile := (Storable.mk hpath hpathFits hcontentsFit).file?
  have hfits := fills_body contents
  by_cases hshort : (encodeChars (joined path.toList)).length ≤ 100
  · -- One member holds the file.
    have hnamed : Named (encodeChars (joined path.toList)) [] := ⟨hshort, Nat.zero_le 16⟩
    rw [file?_short contents hpath hshort] at hfile
    rw [← Option.some.inj hfile] at hcut ⊢
    exact (announces_header rfl hnamed hcontentsFit (kind_file hnamed _)).readFrom_take (by decide)
      hfits hpos hcut
  · -- The path has a member of its own in front.
    obtain ⟨name, hnamed, hlong⟩ := file?_long contents hpath.not_refused fun hc => hshort hc.2
    rw [hlong] at hfile
    rw [← Option.some.inj hfile] at hcut ⊢
    have hpending : Pending.isEmpty ⟨some (encode path ++ [0]), false, none⟩ = false := rfl
    rw [List.append_assoc] at hcut ⊢
    rcases Nat.lt_or_ge n (longName (encode path)).length with hfront | hbehind
    · -- The cut is in the member of the path.
      rw [List.take_append_of_le_length (Nat.le_of_lt hfront)]
      obtain ⟨header, hrecord, hannounced⟩ := longName_eq hpathFits
      rw [hrecord] at hfront ⊢
      exact hannounced.readFrom_take (by decide) (fills_body _) hpos hfront
    · rw [List.take_append, List.take_of_length_le hbehind, readFrom_longName hpathFits]
      rcases Nat.eq_zero_or_pos (n - (longName (encode path)).length) with hzero | hmore
      · -- Right behind it, a path is left for which no file comes.
        rw [hzero, List.take_zero]
        exact ⟨_, readFrom_orphan hpending⟩
      · -- Behind that, it is in the member of the file.
        refine (announces_header rfl hnamed hcontentsFit (kind_file hnamed _)).readFrom_take
          (by decide) hfits hmore ?_
        rw [List.length_append] at hcut
        exact Nat.sub_lt_left_of_lt_add hbehind hcut

/-! ### Lists of files -/

variable {files : List (String × Bytes)}

/-- A file as it is read. -/
def stored (f : String × Bytes) : File :=
  ⟨encode (storedPath f.1), f.2⟩

/-- Where the file at a place starts, or, behind the last one, where all of them end. -/
def offset (files : List (String × Bytes)) (k : Nat) : Nat :=
  ((files.take k).flatMap blocksOf).length

theorem offset_succ {k : Nat} (hk : k < files.length) :
    offset files (k + 1) = offset files k + (blocksOf files[k]).length := by
  unfold offset
  rw [List.take_succ_eq_append_getElem hk, List.flatMap_append, List.length_append,
    List.flatMap_singleton]

/-- Every place is in a file or behind all of them. -/
theorem exists_offset (files : List (String × Bytes)) (n : Nat) :
    offset files files.length ≤ n ∨
      ∃ k < files.length, offset files k ≤ n ∧ n < offset files (k + 1) := by
  have hbefore (m : Nat) :
      offset files m ≤ n ∨ ∃ k < m, offset files k ≤ n ∧ n < offset files (k + 1) := by
    induction m with
    | zero => exact .inl (Nat.zero_le n)
    | succ m ih =>
      rcases ih with hle | ⟨k, hk, hin⟩
      · rcases Nat.lt_or_ge n (offset files (m + 1)) with hlt | hge
        · exact .inr ⟨m, Nat.lt_succ_self m, hle, hlt⟩
        · exact .inl hge
      · exact .inr ⟨k, Nat.lt_succ_of_lt hk, hin⟩
  exact hbefore files.length

/-- What is written are the blocks of the files, in their order. -/
theorem write_eq (h : ∀ f ∈ files, Storable f) :
    write files = files.flatMap blocksOf ++ endMark := by
  have hwrite : write? files = some (files.flatMap blocksOf ++ endMark) := by
    induction files with
    | nil => rfl
    | cons f rest ih =>
      rw [write?_cons, (h f List.mem_cons_self).file?,
        ih fun other hother => h other (List.mem_cons_of_mem _ hother), List.flatMap_cons,
        List.append_assoc]
      rfl
  rw [write, hwrite, Option.getD_some]

theorem write_split (h : ∀ f ∈ files, Storable f) (k : Nat) :
    write files =
      (files.take k).flatMap blocksOf ++ ((files.drop k).flatMap blocksOf ++ endMark) := by
  rw [write_eq h, ← List.append_assoc, ← List.flatMap_append, List.take_append_drop]

/-- Up to a file there are the blocks of those before it. -/
theorem take_offset (h : ∀ f ∈ files, Storable f) (k : Nat) :
    (write files).take (offset files k) = (files.take k).flatMap blocksOf := by
  rw [write_split h k, offset, List.take_left]

/-- Up to a place in a file there are the blocks of those before it, and the first of its own. -/
theorem take_inside (h : ∀ f ∈ files, Storable f) {k n : Nat} (hk : k < files.length)
    (hle : offset files k ≤ n) (hlt : n < offset files (k + 1)) :
    (write files).take n =
      (files.take k).flatMap blocksOf ++ (blocksOf files[k]).take (n - offset files k) := by
  rw [offset_succ hk] at hlt
  rw [write_split h k, List.drop_eq_getElem_cons hk, List.flatMap_cons, List.append_assoc,
    List.take_append, List.take_of_length_le (by exact hle), ← offset,
    List.take_append_of_le_length (Nat.le_of_lt (Nat.sub_lt_left_of_lt_add hle hlt))]

/-- Behind all files there is the mark at the end. -/
theorem take_behind (h : ∀ f ∈ files, Storable f) {n : Nat}
    (hle : offset files files.length ≤ n) :
    (write files).take n =
      files.flatMap blocksOf ++ endMark.take (n - offset files files.length) := by
  have hwhole : (files.flatMap blocksOf).length = offset files files.length := by
    rw [offset, List.take_length]
  rw [write_eq h, List.take_append, List.take_of_length_le (hwhole ▸ hle), hwhole]

/-! ### Reading -/

/-- Whole files are read, whatever stands behind them. -/
theorem readFrom_front (h : ∀ f ∈ files, Storable f) (ending : Ending) (rest : Bytes) :
    readFrom ending {} (files.flatMap blocksOf ++ rest) =
      (readFrom ending {} rest).map (files.map stored ++ ·) := by
  induction files with
  | nil =>
    rw [List.flatMap_nil, List.nil_append]
    cases readFrom ending {} rest <;> rfl
  | cons f more ih =>
    have hf := h f List.mem_cons_self
    rw [List.flatMap_cons, List.append_assoc,
      readFrom_blocks hf.file? hf.pathFits hf.contentsFit,
      ih fun other hother => h other (List.mem_cons_of_mem _ hother)]
    cases readFrom ending {} rest <;> rfl

/-- The mark at the end is read as the end as soon as its first block is there. -/
theorem readFrom_take_endMark {n : Nat} (hge : blockSize ≤ n) :
    readFrom .clean {} (endMark.take n) = .ok [] := by
  have hsplit : min n (2 * blockSize) = blockSize + (min n (2 * blockSize) - blockSize) := by
    omega
  rw [endMark, List.take_replicate, hsplit, ← List.replicate_append_replicate, readFrom_emptyBlock]

/-- Less than that is the start of a header. -/
theorem readFrom_take_endMark_short {n : Nat} (hpos : 0 < n) (hshort : n < blockSize) :
    readFrom .clean {} (endMark.take n) = .error .truncated := by
  have hlength : (endMark.take n).length = n := by
    rw [endMark, List.take_replicate, List.length_replicate]
    omega
  refine readFrom_short (List.ne_nil_of_length_pos ?_) ?_ {}
  · rwa [hlength]
  · rwa [hlength]

/-- Files in front of bytes that hold none have the record of these files. -/
theorem ofArchive_front (h : ∀ f ∈ files, Storable f) {rest : Bytes}
    (hrest : readFrom .clean {} rest = .ok []) :
    Digests.ofArchive (files.flatMap blocksOf ++ rest) =
      .ok (recordOf (files.map Entry.of)) := by
  have hread := readFrom_front h .clean rest
  rw [hrest] at hread
  unfold Digests.ofArchive Digests.ofSource readSource Source.of
  simp only [hread, ← ofFiles_stored, List.map_map, Except.map, List.append_nil]
  rfl

/-- Files do not help what stands behind them to be an archive. -/
theorem ofArchive_front_error (h : ∀ f ∈ files, Storable f) {rest : Bytes} {fault : Fault}
    (hrest : readFrom .clean {} rest = .error fault) :
    Digests.ofArchive (files.flatMap blocksOf ++ rest) = .error (.archive fault.message) := by
  have hread := readFrom_front h .clean rest
  rw [hrest] at hread
  unfold Digests.ofArchive Digests.ofSource readSource Source.of
  simp only [hread, Except.map]

/-- The first bytes of an archive that was written are refused as an archive, or they have the
    record of the first files, with all their contents. They are refused exactly when they end
    inside the blocks of a file, or inside the first empty block behind all files. -/
theorem ofArchive_take (h : ∀ f ∈ files, Storable f) (n : Nat) :
    let record := Digests.ofArchive ((write files).take n)
    ((∃ message, record = .error (.archive message)) ∨
      ∃ k ≤ files.length, record = .ok (recordOf ((files.take k).map Entry.of))) ∧
    (∀ k < files.length, offset files k < n → n < offset files (k + 1) →
      ∃ message, record = .error (.archive message)) ∧
    (offset files files.length < n → n < offset files files.length + blockSize →
      ∃ message, record = .error (.archive message)) ∧
    (∀ k ≤ files.length, n = offset files k →
      record = .ok (recordOf ((files.take k).map Entry.of))) ∧
    (offset files files.length + blockSize ≤ n → record = .ok (recordOf (files.map Entry.of))) := by
  intro record
  have hfront (k : Nat) : ∀ f ∈ files.take k, Storable f :=
    fun f hf => h f (List.mem_of_mem_take hf)
  have hinside : ∀ k < files.length, offset files k < n → n < offset files (k + 1) →
      ∃ message, record = .error (.archive message) := by
    intro k hk hlt hlt'
    have hcut : n - offset files k < (blocksOf files[k]).length := by
      rw [offset_succ hk] at hlt'
      omega
    obtain ⟨fault, hfault⟩ := readFrom_take_blocks (h _ (List.getElem_mem hk)) (by omega) hcut
    refine ⟨fault.message, ?_⟩
    show Digests.ofArchive ((write files).take n) = _
    rw [take_inside h hk (Nat.le_of_lt hlt) hlt', ofArchive_front_error (hfront k) hfault]
  have hmark (hlt : offset files files.length < n)
      (hlt' : n < offset files files.length + blockSize) :
      ∃ message, record = .error (.archive message) := by
    refine ⟨Fault.truncated.message, ?_⟩
    show Digests.ofArchive ((write files).take n) = _
    rw [take_behind h (Nat.le_of_lt hlt),
      ofArchive_front_error h (readFrom_take_endMark_short (by omega) (by omega))]
  have hboundary : ∀ k ≤ files.length, n = offset files k →
      record = .ok (recordOf ((files.take k).map Entry.of)) := by
    rintro k - rfl
    show Digests.ofArchive ((write files).take _) = _
    rw [take_offset h, ← List.append_nil (List.flatMap _ _),
      ofArchive_front (hfront k) readFrom_nil]
  have hend (hle : offset files files.length + blockSize ≤ n) :
      record = .ok (recordOf (files.map Entry.of)) := by
    show Digests.ofArchive ((write files).take n) = _
    rw [take_behind h (by omega), ofArchive_front h (readFrom_take_endMark (by omega))]
  refine ⟨?_, hinside, hmark, hboundary, hend⟩
  -- These are all places where an archive can be cut.
  rcases exists_offset files n with hle | ⟨k, hk, hle, hlt⟩
  · rcases Nat.eq_or_lt_of_le hle with heq | hlt
    · exact .inr ⟨files.length, Nat.le_refl _, hboundary _ (Nat.le_refl _) heq.symm⟩
    · rcases Nat.lt_or_ge n (offset files files.length + blockSize) with hlt' | hge
      · exact .inl (hmark hlt hlt')
      · refine .inr ⟨files.length, Nat.le_refl _, ?_⟩
        rw [List.take_length]
        exact hend hge
  · rcases Nat.eq_or_lt_of_le hle with heq | hlt'
    · exact .inr ⟨k, Nat.le_of_lt hk, hboundary k (Nat.le_of_lt hk) heq.symm⟩
    · exact .inl (hinside k hk hlt' hlt)

/-- An archive of one file that ends in the bytes behind its contents is refused, and one that ends
    behind its last block is not. -/
theorem ofArchive_take_one :
    let files := [("a", ([1] : Bytes))]
    (∃ message, Digests.ofArchive ((write files).take 1000) = .error (.archive message)) ∧
      Digests.ofArchive ((write files).take 1024) =
        .ok (.ofList [("a", Digest.sha256Hex [1])]) := by
  intro files
  have hstorable : ∀ f ∈ files, Storable f := by
    intro f hf
    rw [List.mem_singleton.mp hf]
    exact ⟨by decide, by decide, by decide⟩
  have hend : offset files 1 = 1024 := by decide +kernel
  have hstored : storedPath "a" = "a" := by decide
  have hrecord :
      recordOf ((files.take 1).map Entry.of) = .ofList [("a", Digest.sha256Hex [1])] := by
    show Digests.ofList [(storedPath "a", Digest.sha256Hex [1])] = _
    rw [hstored]
  obtain ⟨-, hinside, -⟩ := ofArchive_take hstorable 1000
  obtain ⟨-, -, -, hboundary, -⟩ := ofArchive_take hstorable 1024
  refine ⟨hinside 0 (by decide) (by decide) (by rw [hend]; decide), ?_⟩
  rw [hboundary 1 (by decide) hend.symm, hrecord]

end DeploymentBackup.Archive
