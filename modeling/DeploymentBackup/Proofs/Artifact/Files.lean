import DeploymentBackup.Proofs.Disk.Create
import DeploymentBackup.Proofs.Metadata.Recorded
import DeploymentBackup.Proofs.Metadata.Written
import DeploymentBackup.Proofs.Text.Utf8
import DeploymentBackup.Workflow.Backup

namespace DeploymentBackup.Artifact

open Text Disk

/-!
# The files of an artifact

While its directory is open and holds no links, an artifact keeps its record and the archives
in files of their own: what was written is what is read, and to write one of them leaves the
others as they are.

* `Sound` — an artifact whose files cannot be mistaken for one another.
* `HasRecord`, `Keeps` — what the files of an artifact hold.
* `metadata_of_hasRecord`, `openFile_of_keeps` — what is read.
* `writeMetadata_stores`, `createFile_stores`, `addDigests_stores` — what is written.
* `record_reads_back` — every record comes back from its file.
-/

/-- The directory is open and holds no links. -/
abbrev Sound (a : Artifact) (d : Disk) : Prop :=
  Clean d a.directory

/-- The path of the record. -/
def metadataPath (a : Artifact) : Path :=
  a.directory.entry metadataFile

/-- The path of the archive of a blob. -/
def blobPath (a : Artifact) (blob : Identifier) : Path :=
  a.directory.entry blob.fileName

/-- The artifact holds a record. -/
def HasRecord (a : Artifact) (m : Metadata) (d : Disk) : Prop :=
  ∃ executable, d.get? a.metadataPath = some (.file (encode m.print) executable)

/-- The artifact holds the archive of a blob. -/
def Keeps (a : Artifact) (blob : Identifier) (contents : Bytes) (d : Disk) : Prop :=
  ∃ executable, d.get? (a.blobPath blob) = some (.file contents executable)

/-- The identifier names a file of an artifact. -/
structure Admits (blob : Identifier) : Prop where
  name : fileName blob = .ok blob.fileName
  fits : nameFault? blob.fileName = none

/-! ### Names -/

theorem plain_metadataFile : PlainName metadataFile := by
  refine ⟨by decide, by decide, by decide, by decide⟩

theorem fits_metadataFile : nameFault? metadataFile = none := by
  decide

theorem plain_manifestFile : PlainName manifestFile := by
  refine ⟨by decide, by decide, by decide, by decide⟩

theorem fits_manifestFile : nameFault? manifestFile = none := by
  decide

/-- The name of an archive: the name of the blob, its index behind a dash, and `.tar`. -/
theorem toList_fileName (blob : Identifier) :
    blob.fileName.toList = blob.name.toList ++
      (match blob.index with
        | some index => '-' :: index.toList
        | none => []) ++ ['.', 't', 'a', 'r'] := by
  unfold Identifier.fileName
  cases blob.index with
  | some index => simp [String.toList_append]
  | none => simp [String.toList_append]

/-- No other file has the name of an archive. -/
theorem fileName_ne {name : String} (h : name.toList.getLast? ≠ some 'r') (blob : Identifier) :
    name ≠ blob.fileName := by
  rintro rfl
  refine h ?_
  rw [toList_fileName, List.getLast?_append]
  rfl

theorem metadataPath_ne_blobPath (a : Artifact) (blob : Identifier) :
    a.metadataPath ≠ a.blobPath blob :=
  fun h => fileName_ne (by decide) blob (Handle.entry_injective h)

theorem manifestPath_ne_blobPath (a : Artifact) (blob : Identifier) :
    a.directory.entry manifestFile ≠ a.blobPath blob :=
  fun h => fileName_ne (by decide) blob (Handle.entry_injective h)

/-- A name that is not refused is a plain one. -/
theorem fileName_spec {blob : Identifier} {name : String} (h : fileName blob = .ok name) :
    name = blob.fileName ∧ PlainName blob.fileName := by
  unfold fileName at h
  split at h
  · cases h
  · rename_i hbad
    simp only [Bool.or_eq_true, not_or, hasChar, List.contains_iff_mem, decide_eq_true_eq] at hbad
    obtain ⟨⟨⟨hempty, hslash⟩, hdot⟩, hindex⟩ := hbad
    cases h
    have hlist := toList_fileName blob
    obtain ⟨c, rest, hname⟩ : ∃ c rest, blob.name.toList = c :: rest := by
      cases hcs : blob.name.toList with
      | nil => exact absurd (by simpa using hcs) hempty
      | cons c rest => exact ⟨c, rest, rfl⟩
    have hfirst : c ≠ '.' := by
      intro hc
      rw [hname, hc] at hdot
      exact hdot rfl
    rw [hname] at hlist hslash
    have hhead : blob.fileName.toList.head? = some c := by
      rw [hlist]
      rfl
    -- The name starts with something else than a dot, so it is neither `.` nor `..`.
    refine ⟨rfl, ⟨?_, ?_, ?_, ?_⟩⟩
    · intro hc
      rw [hc] at hlist
      cases hlist
    · rw [hlist]
      cases hi : blob.index with
      | some index =>
        have hclean : '/' ∉ index.toList := by simpa [hi] using hindex
        simpa [hclean] using hslash
      | none => simpa using hslash
    · intro hc
      rw [hc] at hhead
      exact hfirst (by simpa using hhead.symm)
    · intro hc
      rw [hc] at hhead
      exact hfirst (by simpa using hhead.symm)

theorem Admits.plain {blob : Identifier} (h : Admits blob) : PlainName blob.fileName :=
  (fileName_spec h.name).2

theorem blobPath_injective {a : Artifact} {blob other : Identifier}
    (h : a.blobPath blob = a.blobPath other) : blob.fileName = other.fileName :=
  Handle.entry_injective h

/-! ### Reading -/

variable {a : Artifact} {d d' : Disk} {m : Metadata} {blob : Identifier} {contents : Bytes}

/-- The record is read as it was written. -/
theorem metadata_of_hasRecord (hsound : a.Sound d) (h : a.HasRecord m d) :
    a.metadata d = .ok m := by
  obtain ⟨executable, hfile⟩ := h
  change d.get? (a.directory.entry metadataFile) = _ at hfile
  unfold metadata readTextIn
  rw [resolveIn_plain plain_metadataFile hsound fits_metadataFile, hfile]
  simp only [textOf, decode?_encode, Metadata.parse_print]
  rfl

/-- An archive is read as it was written. -/
theorem openFile_of_keeps (hsound : a.Sound d) (hblob : Admits blob)
    (h : a.Keeps blob contents d) : a.openFile blob d = .ok (.of contents) := by
  obtain ⟨executable, hfile⟩ := h
  change d.get? (a.directory.entry blob.fileName) = _ at hfile
  unfold openFile openIn
  rw [hblob.name]
  simp only [resolveIn_plain hblob.plain hsound hblob.fits, hfile, sourceOf]

/-- What is read of a blob depends on what has the name of its file. -/
theorem openFile_alike (hsound : a.Sound d) (hsound' : a.Sound d')
    (hsame : d'.get? (a.blobPath blob) = d.get? (a.blobPath blob)) :
    a.openFile blob d' = a.openFile blob d := by
  unfold openFile
  cases hname : fileName blob with
  | error fault => rfl
  | ok name =>
    obtain ⟨rfl, hplain⟩ := fileName_spec hname
    change d'.get? (a.directory.entry blob.fileName) =
      d.get? (a.directory.entry blob.fileName) at hsame
    unfold openIn
    cases hfits : nameFault? blob.fileName with
    | some fault =>
      simp only [resolveIn_refused hplain hsound hfits, resolveIn_refused hplain hsound' hfits]
    | none =>
      simp only [resolveIn_plain hplain hsound hfits, resolveIn_plain hplain hsound' hfits, hsame]

theorem calculateDigests_of_keeps (hsound : a.Sound d) (hblob : Admits blob)
    (h : a.Keeps blob contents d) :
    a.calculateDigests blob d = (Digests.ofArchive contents).mapError (.checksum blob) := by
  unfold calculateDigests
  rw [openFile_of_keeps hsound hblob h]
  rfl

/-- No bytes at all are an archive without entries. -/
theorem ofArchive_nil : Digests.ofArchive [] = .ok .empty := by
  unfold Digests.ofArchive Digests.ofSource Archive.readSource Archive.readFrom
  rfl

/-! ### Writing -/

theorem HasRecord.of_stores (h : a.HasRecord m d)
    (hstores : Stores d d' (a.blobPath blob) contents) : a.HasRecord m d' := by
  obtain ⟨executable, hfile⟩ := h
  exact ⟨executable, by rw [hstores.elsewhere _ (metadataPath_ne_blobPath a blob), hfile]⟩

theorem hasRecord_of_stores (hstores : Stores d d' a.metadataPath (encode m.print)) :
    a.HasRecord m d' :=
  hstores.here

theorem keeps_of_stores (hstores : Stores d d' (a.blobPath blob) contents) :
    a.Keeps blob contents d' :=
  hstores.here

theorem Keeps.of_stores_metadata (h : a.Keeps blob contents d) {written : Bytes}
    (hstores : Stores d d' a.metadataPath written) : a.Keeps blob contents d' := by
  obtain ⟨executable, hfile⟩ := h
  exact ⟨executable, by
    rw [hstores.elsewhere _ (Ne.symm (metadataPath_ne_blobPath a blob)), hfile]⟩

theorem Keeps.of_stores (h : a.Keeps blob contents d) {other : Identifier} {written : Bytes}
    (hne : blob.fileName ≠ other.fileName)
    (hstores : Stores d d' (a.blobPath other) written) : a.Keeps blob contents d' := by
  obtain ⟨executable, hfile⟩ := h
  refine ⟨executable, ?_⟩
  rw [hstores.elsewhere _ fun hc => hne (blobPath_injective hc), hfile]

theorem ok_of_mapError {α ε ε' : Type} {x : Except ε α} {f : ε → ε'} {value : α}
    (h : x.mapError f = .ok value) : x = .ok value := by
  cases x with
  | error fault => cases h
  | ok other =>
    cases h
    rfl

/-- A record that was written was written to its file. -/
theorem writeIn_of_writeMetadata (h : a.writeMetadata m d = .ok d') :
    d.writeIn a.directory metadataFile (encode m.print) = .ok d' :=
  ok_of_mapError h

/-- A manifest that was stored was written to its file. -/
theorem writeIn_of_saveManifest {manifest : String} (h : a.saveManifest manifest d = .ok d') :
    d.writeIn a.directory manifestFile (encode manifest) = .ok d' := by
  unfold saveManifest at h
  split at h
  · cases h
  · exact ok_of_mapError h

theorem writeMetadata_stores (hsound : a.Sound d) (h : a.writeMetadata m d = .ok d') :
    Stores d d' a.metadataPath (encode m.print) :=
  writeIn_stores plain_metadataFile hsound (writeIn_of_writeMetadata h)

theorem saveManifest_stores {manifest : String} (hsound : a.Sound d)
    (h : a.saveManifest manifest d = .ok d') :
    Stores d d' (a.directory.entry manifestFile) (encode manifest) :=
  writeIn_stores plain_manifestFile hsound (writeIn_of_saveManifest h)

/-- The record can always be replaced. -/
theorem writeMetadata_ok (hsound : a.Sound d) (h : a.HasRecord m d) (m' : Metadata) :
    ∃ d', a.writeMetadata m' d = .ok d' ∧ Stores d d' a.metadataPath (encode m'.print) := by
  obtain ⟨executable, hfile⟩ := h
  obtain ⟨d', hwrite⟩ := writeIn_file plain_metadataFile hsound fits_metadataFile
    (overwritable_of_file hfile) (encode m'.print)
  refine ⟨d', ?_, writeIn_stores plain_metadataFile hsound hwrite⟩
  unfold writeMetadata
  rw [hwrite]
  rfl

/-- The archive that is opened for writing is the one of the blob, and it holds what is written
    into it. -/
theorem createFile_stores {file : WriteHandle} (hsound : a.Sound d)
    (h : a.createFile blob d = .ok (file, d')) :
    Admits blob ∧
      ∀ contents, Stores d (d'.write file contents) (a.blobPath blob) contents := by
  unfold createFile at h
  cases hname : fileName blob with
  | error fault =>
    rw [hname] at h
    cases h
  | ok name =>
    obtain ⟨rfl, hplain⟩ := fileName_spec hname
    rw [hname] at h
    obtain ⟨hfits, hstores⟩ := createIn_stores hplain hsound (ok_of_mapError h)
    exact ⟨⟨hname, hfits⟩, hstores⟩

/-- An archive can be opened for writing, unless a directory stands in its place. -/
theorem createFile_ok (hsound : a.Sound d) (hblob : Admits blob)
    (hbefore : ∀ entry, d.get? (a.blobPath blob) = some entry →
      ∃ old executable, entry = .file old executable) :
    ∃ file d', a.createFile blob d = .ok (file, d') := by
  obtain ⟨file, d', hcreate⟩ := createIn_file hblob.plain hsound hblob.fits hbefore
  refine ⟨file, d', ?_⟩
  unfold createFile
  rw [hblob.name]
  simp only [hcreate]
  rfl

/-- A blob is recorded unless it is recorded already. -/
theorem addDigests_stores (hsound : a.Sound d) (h : a.HasRecord m d) (digests : Digests) :
    (∃ m' d', m.insert? blob digests = some m' ∧ a.addDigests blob digests d = .ok d' ∧
      Stores d d' a.metadataPath (encode m'.print)) ∨
    m.insert? blob digests = none ∧
      a.addDigests blob digests d = .error (.duplicateEntry blob) := by
  unfold addDigests
  rw [metadata_of_hasRecord hsound h]
  cases hinsert : m.insert? blob digests with
  | none => exact .inr ⟨rfl, by simp only [hinsert]⟩
  | some m' =>
    obtain ⟨d', hwrite, hstores⟩ := writeMetadata_ok hsound h m'
    exact .inl ⟨m', d', rfl, by simp only [hinsert, hwrite], hstores⟩

/-- The finish can always be recorded. -/
theorem addFinishTime_stores (hsound : a.Sound d) (h : a.HasRecord m d) (finish : Instant) :
    ∃ d', a.addFinishTime finish d = .ok d' ∧
      Stores d d' a.metadataPath
        (encode ({ m with finishTime := some finish.stamp } : Metadata).print) := by
  obtain ⟨d', hwrite, hstores⟩ :=
    writeMetadata_ok hsound h { m with finishTime := some finish.stamp }
  refine ⟨d', ?_, hstores⟩
  unfold addFinishTime
  rw [metadata_of_hasRecord hsound h]
  exact hwrite

/-! ### Checking -/

/-- No entry of the directory is a link. -/
def HoldsNoLink (a : Artifact) (d : Disk) : Prop :=
  ∀ name target, d.get? (a.directory.entry name) ≠ some (.link target)

/-- The record that an artifact starts with. -/
def firstRecord (start : Instant) : Metadata :=
  { Metadata.empty with startTime := some start.stamp }

theorem openAt_eq {d : Disk} {path : String} {a : Artifact} (h : openAt d path = .ok a) :
    d.directoryAt path = .ok a.directory ∧ a = ⟨path, a.directory⟩ := by
  unfold openAt at h
  cases hopen : d.directoryAt path with
  | error fault =>
    rw [hopen] at h
    cases h
  | ok handle =>
    rw [hopen] at h
    cases h
    exact ⟨rfl, rfl⟩

theorem openAt_of_createAt {path : String} (h : createAt d path = (.ok a, d')) :
    openAt d' path = .ok a := by
  unfold createAt at h
  split at h
  · cases h
  · split at h
    · cases h
    · obtain ⟨hopen, hdisk⟩ := Prod.mk.inj h
      rw [← hdisk, hopen]

/-- An artifact is opened again as long as its tree stays. -/
theorem openAt_sameTree (h : SameTree d d') {path : String} (hopen : openAt d path = .ok a) :
    openAt d' path = .ok a := by
  obtain ⟨hdirectory, hsame⟩ := openAt_eq hopen
  rw [openAt, directoryAt_sameTree h hdirectory, hsame]

theorem saveManifest_sameTree {manifest : String} (h : a.saveManifest manifest d = .ok d') :
    SameTree d d' :=
  writeIn_sameTree (writeIn_of_saveManifest h)

theorem writeMetadata_sameTree (h : a.writeMetadata m d = .ok d') : SameTree d d' :=
  writeIn_sameTree (writeIn_of_writeMetadata h)

/-- The steps that make a new artifact. -/
theorem prepare_steps {path manifest : String} {start : Instant}
    (h : Workflow.prepare path manifest start d = (.ok a, d')) :
    ∃ d₁ d₂, createAt d path = (.ok a, d₁) ∧ a.saveManifest manifest d₁ = .ok d₂ ∧
      a.writeMetadata (firstRecord start) d₂ = .ok d' := by
  unfold Workflow.prepare at h
  split at h
  · cases h
  · rename_i a' d₁ hcreate
    split at h
    · cases h
    · rename_i d₂ hmanifest
      split at h
      · cases h
      · rename_i d₃ hmetadata
        cases h
        unfold createMetadata at hmetadata
        split at hmetadata
        · cases hmetadata
        · exact ⟨d₁, d₂, hcreate, hmanifest, hmetadata⟩

/-- A new artifact has the path at which it was made. -/
theorem path_of_prepare {path manifest : String} {start : Instant}
    (h : Workflow.prepare path manifest start d = (.ok a, d')) : a.path = path := by
  obtain ⟨d₁, d₂, hcreate, -, -⟩ := prepare_steps h
  exact congrArg Artifact.path (openAt_eq (openAt_of_createAt hcreate)).2

/-- A new artifact holds its first record, and it can be opened again. -/
theorem prepare_spec {path manifest : String} {start : Instant}
    (h : Workflow.prepare path manifest start d = (.ok a, d')) (hlinks : a.HoldsNoLink d') :
    a.Sound d' ∧ a.HasRecord (firstRecord start) d' ∧ openAt d' path = .ok a := by
  obtain ⟨d₁, d₂, hcreate, hmanifest, hmetadata⟩ := prepare_steps h
  have hopened := openAt_of_createAt hcreate
  obtain ⟨hdirectory, -⟩ := openAt_eq hopened
  have htree := saveManifest_sameTree hmanifest
  have hopen := htree.isOpen (isOpen_of_directoryAt hdirectory)
  have htree' := writeMetadata_sameTree hmetadata
  have hsound : a.Sound d₂ := htree'.clean hopen hlinks
  have hstores := writeMetadata_stores hsound hmetadata
  exact ⟨hstores.clean hsound, hasRecord_of_stores hstores,
    openAt_sameTree (htree.trans htree') hopened⟩

theorem createAt_adds {path : String} (h : createAt d path = (.ok a, d')) :
    AddsDirectories d d' := by
  unfold createAt at h
  split at h
  · cases h
  · have hadds := makeSteps_adds (d := d) (if (PathText.of path).absolute then "/" else "")
      ((PathText.of path).steps.filter (· ≠ ".")).reverse
    split at h
    · cases h
    · rename_i d₁ hmake
      obtain ⟨-, rfl⟩ := Prod.mk.inj h
      rw [makeDirectories] at hmake
      rwa [hmake] at hadds

/-- There are no links in an artifact where there was nothing before. -/
theorem sound_of_vacant {path : String} (h : createAt d path = (.ok a, d'))
    (hnew : d.Vacant a.directory.path) : a.Sound d' where
  isOpen := isOpen_of_directoryAt (openAt_eq (openAt_of_createAt h)).1
  noLinks := by
    intro name target hlink
    rcases createAt_adds h (a.directory.entry name) with hsame | ⟨serial, hmade⟩
    · rw [hsame, Handle.entry, hnew [name]] at hlink
      cases hlink
    · rw [hmade] at hlink
      cases hlink

/-- The directory of a new artifact is empty, unless its path goes up behind a step that goes
    down. -/
theorem createAt_bare {path : String} (hrooted : d.Rooted)
    (hdown : GoesDown (PathText.of path).steps) (h : createAt d path = (.ok a, d')) :
    d'.Bare a.directory.path := by
  obtain ⟨hdirectory, -⟩ := openAt_eq (openAt_of_createAt h)
  unfold createAt at h
  split at h
  · cases h
  · rename_i hfree
    split at h
    · cases h
    · rename_i d₁ hmake
      obtain ⟨-, rfl⟩ := Prod.mk.inj h
      exact makeDirectories_bare hrooted hdown (by simpa using hfree) hmake hdirectory

/-- An empty directory has no links. -/
theorem sound_of_bare {path : String} (h : createAt d path = (.ok a, d'))
    (hbare : d'.Bare a.directory.path) : a.Sound d' where
  isOpen := isOpen_of_directoryAt (openAt_eq (openAt_of_createAt h)).1
  noLinks := by
    intro name target hlink
    rw [Handle.entry, hbare name []] at hlink
    cases hlink

/-- There are no links in an artifact that has been prepared where there was nothing. -/
theorem holdsNoLink_of_vacant {path manifest : String} {start : Instant}
    (h : Workflow.prepare path manifest start d = (.ok a, d'))
    (hnew : d.Vacant a.directory.path) : a.HoldsNoLink d' := by
  obtain ⟨d₁, d₂, hcreate, hmanifest, hmetadata⟩ := prepare_steps h
  have hsound := sound_of_vacant hcreate hnew
  have hsound₂ := (saveManifest_stores hsound hmanifest).clean hsound
  exact ((writeMetadata_stores hsound₂ hmetadata).clean hsound₂).noLinks

/-- There are no archives in a directory that was empty until it was prepared. -/
theorem holdsNoArchive_of_bare {path manifest : String} {start : Instant}
    (h : Workflow.prepare path manifest start d = (.ok a, d'))
    (hbare : (createAt d path).2.Bare a.directory.path) (blob : Identifier) :
    d'.get? (a.blobPath blob) = none := by
  obtain ⟨d₁, d₂, hcreate, hmanifest, hmetadata⟩ := prepare_steps h
  rw [hcreate] at hbare
  have hsound := sound_of_bare hcreate hbare
  have hstores := saveManifest_stores hsound hmanifest
  have hstores' := writeMetadata_stores (hstores.clean hsound) hmetadata
  rw [hstores'.elsewhere _ (metadataPath_ne_blobPath a blob).symm,
    hstores.elsewhere _ (manifestPath_ne_blobPath a blob).symm]
  exact hbare blob.fileName []

/-- An empty directory becomes an artifact. -/
theorem prepare_of_bare {path : String} (manifest : String) (start : Instant)
    (hcreate : createAt d path = (.ok a, d')) (hbare : d'.Bare a.directory.path) :
    ∃ d₂, Workflow.prepare path manifest start d = (.ok a, d₂) := by
  have hsound := sound_of_bare hcreate hbare
  -- Neither file is there yet, and to write the first one does not make the second one.
  have hfree (name : String) : d'.get? (a.directory.entry name) = none := hbare name []
  have hnone : d'.existsIn a.directory manifestFile = false := by
    unfold existsIn
    rw [resolveIn_plain plain_manifestFile hsound fits_manifestFile, hfree]
  obtain ⟨d₁, hwrite⟩ := writeIn_file plain_manifestFile hsound fits_manifestFile
    (by simp [hfree]) (encode manifest)
  have hstores := writeIn_stores plain_manifestFile hsound hwrite
  have hsound₁ := hstores.clean hsound
  have hfree₁ : d₁.get? (a.directory.entry metadataFile) = none := by
    rw [hstores.elsewhere _ fun hc => absurd (Handle.entry_injective hc) (by decide), hfree]
  have hnone₁ : d₁.existsIn a.directory metadataFile = false := by
    unfold existsIn
    rw [resolveIn_plain plain_metadataFile hsound₁ fits_metadataFile, hfree₁]
  obtain ⟨d₂, hwrite₁⟩ := writeIn_file plain_metadataFile hsound₁ fits_metadataFile
    (by simp [hfree₁]) (encode (firstRecord start).print)
  have hmanifest : a.saveManifest manifest d' = .ok d₁ := by
    unfold saveManifest
    rw [hnone, hwrite]
    rfl
  have hmetadata : a.createMetadata start d₁ = .ok d₂ := by
    unfold createMetadata writeMetadata
    rw [hnone₁, show ({ Metadata.empty with startTime := some start.stamp } : Metadata) =
      firstRecord start from rfl, hwrite₁]
    rfl
  refine ⟨d₂, ?_⟩
  unfold Workflow.prepare
  simp only [hcreate, hmanifest, hmetadata]

theorem resolve_plain {name : String} {follow : Bool} (hplain : PlainName name)
    (hfits : nameFault? name = none) :
    d.resolve follow name = d.walk none follow mostLinks d.workdir [name] := by
  have hempty : name.isEmpty = false := by simpa using hplain.ne_empty
  obtain ⟨hzero, -, hpath⟩ := nameFault?_eq_none hfits
  unfold resolve
  simp only [hzero, hempty, hplain.steps, hpath, Bool.false_eq_true, if_false]

/-- A name that is free becomes the directory of an artifact. -/
theorem createAt_plain {name : String} (hplain : PlainName name)
    (hfits : nameFault? name = none) (hfree : d.get? (d.workdir ++ [name]) = none) :
    createAt d name = (.ok ⟨name, ⟨d.workdir ++ [name], d.serial⟩⟩,
      d.makeDirectory (d.workdir ++ [name])) := by
  have hne : d.workdir ++ [name] ≠ [] := by simp
  -- The name is free before, and leads to the new directory afterwards.
  have hwalk (follow : Bool) :
      d.walk none follow mostLinks d.workdir [name] = .ok (.free (d.workdir ++ [name])) := by
    rw [walk_free hplain.ne_here hplain.ne_above (nameFault?_eq_none hfits).2.1 hfree]
    rfl
  have hnone : d.exists? name = false := by
    unfold exists?
    rw [resolve_plain hplain hfits, hwalk]
  have hmake : d.makeDirectories name = (.ok (), d.makeDirectory (d.workdir ++ [name])) := by
    have hsteps : ([name].filter (· ≠ ".")).reverse = [name] := by simp [hplain.ne_here]
    have hpath : "" ++ "/".intercalate [name].reverse = name := by simp
    unfold makeDirectories
    simp only [hplain.steps, hsteps, Bool.false_eq_true, if_false]
    rw [makeSteps, hpath, makeDirectoryAt, resolve_plain hplain hfits, hwalk]
  have hthere : (d.makeDirectory (d.workdir ++ [name])).walk none true mostLinks d.workdir
      [name] = .ok (.entry (d.workdir ++ [name]) (.directory d.serial)) :=
    walk_made (makeDirectory_sameTree hne hfree) (by rw [get?_makeDirectory hne, if_pos rfl])
      (hwalk true)
  have hopen : openAt (d.makeDirectory (d.workdir ++ [name])) name =
      .ok ⟨name, d.workdir ++ [name], d.serial⟩ := by
    have hworkdir : (d.makeDirectory (d.workdir ++ [name])).workdir = d.workdir := rfl
    unfold openAt directoryAt
    rw [resolve_plain hplain hfits, hworkdir, hthere]
  unfold createAt
  rw [hnone, hmake]
  simp only [hopen, Bool.false_eq_true, if_false]

/-- There can be an artifact on a disk on which there is nothing else. -/
theorem prepare_fresh (manifest : String) (start : Instant) :
    ∃ a d, Workflow.prepare "x" manifest start fresh = (.ok a, d) ∧
      fresh.Vacant a.directory.path ∧ ∀ blob, d.get? (a.blobPath blob) = none := by
  have hplain : PlainName "x" := ⟨by decide, by decide, by decide, by decide⟩
  have hfree : fresh.get? (fresh.workdir ++ ["x"]) = none := by decide
  have hcreate := createAt_plain hplain (by decide) hfree
  have hbare := (rooted_fresh.bare hfree).makeDirectory (by simp)
  obtain ⟨d, hprepare⟩ := prepare_of_bare manifest start hcreate hbare
  refine ⟨_, d, hprepare, rooted_fresh.vacant hfree, holdsNoArchive_of_bare hprepare ?_⟩
  rw [hcreate]
  exact hbare

/-- Any record can be that of an artifact without archives. -/
theorem exists_record (m : Metadata) : ∃ (a : Artifact) (d : Disk), a.Sound d ∧ a.HasRecord m d ∧
    ∀ blob, d.get? (a.blobPath blob) = none := by
  obtain ⟨a, d, hprepare, hnew, hnone⟩ := prepare_fresh "" ⟨0, false⟩
  obtain ⟨hsound, hrecord, -⟩ := prepare_spec hprepare (holdsNoLink_of_vacant hprepare hnew)
  obtain ⟨d', -, hstores⟩ := writeMetadata_ok hsound hrecord m
  refine ⟨a, d', hstores.clean hsound, hasRecord_of_stores hstores, fun blob => ?_⟩
  rw [hstores.elsewhere _ (Ne.symm (metadataPath_ne_blobPath a blob)), hnone]

/-! ### The record reads back -/

/-- Every record comes back as it was written, from its text and from the file that it was written
    to, whatever the directory of the artifact holds. -/
theorem record_reads_back (m : Metadata) :
    Metadata.parse m.print = .ok m ∧
      ∀ (a : Artifact) (d d' : Disk), a.writeMetadata m d = .ok d' → a.metadata d' = .ok m := by
  refine ⟨Metadata.parse_print m, ?_⟩
  intro a d d' h
  obtain ⟨path, executable, hfile⟩ := resolveIn_writeIn (writeIn_of_writeMetadata h)
  unfold metadata readTextIn
  rw [hfile]
  simp only [textOf, decode?_encode, Metadata.parse_print]
  rfl

/-- An index that looks like a number is written to a new artifact and read back as a text. -/
theorem record_reads_back_fresh :
    let m : Metadata := ⟨none, some "", [⟨"a", "007", .empty⟩], [⟨"~", .empty⟩]⟩
    ∃ (a : Artifact) (d d' : Disk), a.writeMetadata m d = .ok d' ∧ a.metadata d' = .ok m := by
  intro m
  obtain ⟨a, d, hprepare, hnew, -⟩ := prepare_fresh "" ⟨0, false⟩
  obtain ⟨hsound, hrecord, -⟩ := prepare_spec hprepare (holdsNoLink_of_vacant hprepare hnew)
  obtain ⟨d', hwrite, -⟩ := writeMetadata_ok hsound hrecord m
  exact ⟨a, d, d', hwrite, (record_reads_back m).2 a d d' hwrite⟩

end DeploymentBackup.Artifact
