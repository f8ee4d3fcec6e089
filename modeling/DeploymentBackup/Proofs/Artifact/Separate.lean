import DeploymentBackup.Proofs.Artifact.Files
import DeploymentBackup.Proofs.Identifier

namespace DeploymentBackup.Artifact

open Text Disk

/-!
# The archives of different blobs

The file of a blob is named by its name and its index, joined by a dash. Two blobs whose files
have different names keep out of each other's way: to write one leaves what is read of the
other. A name may hold a dash itself, though, so that two blobs can have one file, and then the
last of them to be written is what is read of both.

* `Extends` — a name that goes on behind another one with a dash.
* `eq_or_extends` — which blobs have one file.
* `openFile_elsewhere`, `openFile_shared` — what is read of a blob after another one was written.
* `createFile_separate` — both, for every pair of blobs.
-/

/-- The name starts with another one and a dash. -/
def Extends (name shorter : String) : Prop :=
  ∃ rest, name.toList = shorter.toList ++ '-' :: rest

variable {a : Artifact} {d d' : Disk} {blob other : Identifier} {contents : Bytes}

/-! ### Names -/

/-- What stands between the name of a blob and the ending of its file. -/
def indexPart (blob : Identifier) : List Char :=
  match blob.index with
  | some index => '-' :: index.toList
  | none => []

theorem toList_fileName_indexPart (blob : Identifier) :
    blob.fileName.toList = blob.name.toList ++ indexPart blob ++ ['.', 't', 'a', 'r'] :=
  toList_fileName blob

theorem index_eq_of_indexPart (h : indexPart blob = indexPart other) :
    blob.index = other.index := by
  unfold indexPart at h
  cases hi : blob.index with
  | none =>
    cases hj : other.index with
    | none => rfl
    | some index' =>
      rw [hi, hj] at h
      cases h
  | some index =>
    cases hj : other.index with
    | none =>
      rw [hi, hj] at h
      cases h
    | some index' =>
      rw [hi, hj] at h
      rw [String.toList_inj.mp (List.cons_eq_cons.mp h).2]

/-- What one name has beyond another one is the beginning of an index. -/
theorem extends_of_append {rest : List Char} (hname : other.name.toList = blob.name.toList ++ rest)
    (hindex : indexPart blob = rest ++ indexPart other) :
    blob = other ∨ Extends other.name blob.name := by
  cases rest with
  | nil =>
    rw [List.append_nil] at hname
    have hnames : blob.name = other.name := String.toList_inj.mp hname.symm
    exact .inl (Identifier.eq_iff_name_index.mpr ⟨hnames, index_eq_of_indexPart hindex⟩)
  | cons c rest =>
    right
    cases hi : blob.index with
    | none =>
      rw [indexPart, hi] at hindex
      cases hindex
    | some index =>
      rw [indexPart, hi] at hindex
      obtain ⟨rfl, -⟩ := List.cons_eq_cons.mp hindex
      exact ⟨rest, hname⟩

/-- Different blobs have one file only when the name of one goes on behind the name of the
    other with a dash. -/
theorem eq_or_extends (h : blob.fileName = other.fileName) :
    blob = other ∨ Extends other.name blob.name ∨ Extends blob.name other.name := by
  have hchars : blob.name.toList ++ indexPart blob = other.name.toList ++ indexPart other :=
    List.append_cancel_right
      (by rw [← toList_fileName_indexPart, ← toList_fileName_indexPart, h])
  rcases List.append_eq_append_iff.mp hchars with ⟨rest, hname, hindex⟩ | ⟨rest, hname, hindex⟩
  · exact (extends_of_append hname hindex).imp_right .inl
  · exact (extends_of_append hname hindex).imp Eq.symm .inr

/-! ### Contents -/

/-- A write to another path leaves what is read of a blob. -/
theorem openFile_elsewhere {path : Path} (hsound : a.Sound d) (hsound' : a.Sound d')
    (hstores : Stores d d' path contents) (hne : a.blobPath other ≠ path) :
    a.openFile other d' = a.openFile other d :=
  openFile_alike hsound hsound' (hstores.elsewhere _ hne)

/-- What was written for a blob is read of every blob that has the same file. -/
theorem openFile_shared (hsound : a.Sound d') (hstores : Stores d d' (a.blobPath blob) contents)
    (hblob : Admits blob) (hsame : blob.fileName = other.fileName)
    (hother : fileName other = .ok other.fileName) :
    a.openFile other d' = .ok (.of contents) := by
  obtain ⟨executable, hfile⟩ := hstores.here
  refine openFile_of_keeps hsound ⟨hother, hsame ▸ hblob.fits⟩ ⟨executable, ?_⟩
  rw [blobPath, ← hsame]
  exact hfile

/-- Only inside an opened directory is an archive opened for writing. -/
theorem isOpen_of_createFile {file : WriteHandle} (h : a.createFile blob d = .ok (file, d')) :
    d.isOpen a.directory = true := by
  unfold createFile at h
  split at h
  · cases h
  · have hcreate := ok_of_mapError h
    unfold createIn at hcreate
    split at hcreate
    · rename_i hresolve
      exact (resolveIn_ok_iff.mp hresolve).2.2.2.2.1
    · cases hcreate
    · rename_i hresolve
      exact (resolveIn_ok_iff.mp hresolve).2.2.2.2.1
    · cases hcreate

/-- An archive that is made and written leaves what is read of every blob whose file has another
    name, and is what is read of every blob whose file has the same. Blobs that have one file
    are the same, or the name of one goes on behind the name of the other with a dash. -/
theorem createFile_separate {file : WriteHandle} (hlinks : a.HoldsNoLink d)
    (h : a.createFile blob d = .ok (file, d')) (other : Identifier) (contents : Bytes) :
    (blob.fileName ≠ other.fileName →
      a.openFile other (d'.write file contents) = a.openFile other d ∧
      a.calculateDigests other (d'.write file contents) = a.calculateDigests other d) ∧
    (blob.fileName = other.fileName → fileName other = .ok other.fileName →
      a.openFile other (d'.write file contents) = .ok (.of contents) ∧
      a.calculateDigests other (d'.write file contents) =
        (Digests.ofArchive contents).mapError (.checksum other)) ∧
    (blob.fileName = other.fileName →
      blob = other ∨ Extends other.name blob.name ∨ Extends blob.name other.name) := by
  have hsound : a.Sound d := ⟨isOpen_of_createFile h, hlinks⟩
  obtain ⟨hblob, hstores⟩ := createFile_stores hsound h
  have hsound' := (hstores contents).clean hsound
  refine ⟨?_, ?_, eq_or_extends⟩
  · intro hne
    have hopen := openFile_elsewhere hsound hsound' (hstores contents)
      fun hc => hne (blobPath_injective hc).symm
    exact ⟨hopen, by rw [calculateDigests, calculateDigests, hopen]⟩
  · intro hsame hother
    have hopen := openFile_shared hsound' (hstores contents) hblob hsame hother
    exact ⟨hopen, by rw [calculateDigests, hopen]; rfl⟩

/-- In a new artifact the shared blob `redis-0` is written beside the archive of `redis/1`, and
    over the one of `redis/0`. -/
theorem createFile_separate_fresh :
    let blob := Identifier.named "redis-0"
    ∃ (a : Artifact) (d d' : Disk) (file : WriteHandle), a.HoldsNoLink d ∧
      a.createFile blob d = .ok (file, d') ∧ ∀ contents,
        a.openFile (.indexed "redis" "1") (d'.write file contents) =
          a.openFile (.indexed "redis" "1") d ∧
        a.openFile (.indexed "redis" "0") (d'.write file contents) = .ok (.of contents) := by
  intro blob
  obtain ⟨a, d, hprepare, hnew, hnone⟩ := prepare_fresh "" ⟨0, false⟩
  have hlinks := holdsNoLink_of_vacant hprepare hnew
  obtain ⟨hsound, -, -⟩ := prepare_spec hprepare hlinks
  have hblob : Admits blob := ⟨by decide, by decide⟩
  obtain ⟨file, d', hcreate⟩ := createFile_ok hsound hblob (by simp [hnone])
  refine ⟨a, d, d', file, hlinks, hcreate, fun contents => ⟨?_, ?_⟩⟩
  · exact ((createFile_separate hlinks hcreate (.indexed "redis" "1") contents).1 (by decide)).1
  · exact ((createFile_separate hlinks hcreate (.indexed "redis" "0") contents).2.1
      (by decide) (by decide)).1

/-- Different blobs can have one file: the archive of `redis/0` is lost when the shared blob
    `redis-0` is written. -/
theorem openFile_overwritten :
    let blob := Identifier.named "redis-0"
    let other := Identifier.indexed "redis" "0"
    blob ≠ other ∧ ∃ (a : Artifact) (d d' : Disk) (file : WriteHandle), a.HoldsNoLink d ∧
      (∃ file' d'', a.createFile other d = .ok (file', d'')) ∧
      a.createFile blob d = .ok (file, d') ∧
      a.openFile other d = .ok (.of [1]) ∧
      a.openFile other (d'.write file [2]) = .ok (.of [2]) := by
  intro blob other
  have hblob : Admits blob := ⟨by decide, by decide⟩
  have hother : Admits other := ⟨by decide, by decide⟩
  obtain ⟨a, d₀, hprepare, hnew, hnone⟩ := prepare_fresh "" ⟨0, false⟩
  obtain ⟨hsound₀, -, -⟩ := prepare_spec hprepare (holdsNoLink_of_vacant hprepare hnew)
  -- The archive of `redis/0` is written first.
  obtain ⟨file₀, d₁, hcreate₀⟩ := createFile_ok hsound₀ hother (by simp [hnone])
  have hstores₀ := (createFile_stores hsound₀ hcreate₀).2 [1]
  have hsound := hstores₀.clean hsound₀
  obtain ⟨executable, hfile⟩ := hstores₀.here
  have hplaces : a.blobPath blob = a.blobPath other := by
    rw [blobPath, blobPath, show blob.fileName = other.fileName by decide]
  -- Then `redis-0` is written to the same file.
  obtain ⟨file, d', hcreate⟩ := createFile_ok hsound hblob
    (hplaces ▸ overwritable_of_file hfile)
  have hstores := (createFile_stores hsound hcreate).2 [2]
  refine ⟨by decide, a, _, d', file, hsound.noLinks, ?_, hcreate, ?_, ?_⟩
  · exact createFile_ok hsound hother (overwritable_of_file hfile)
  · exact openFile_of_keeps hsound hother ⟨executable, hfile⟩
  · exact openFile_shared (hstores.clean hsound) hstores hblob (by decide) (by decide)

end DeploymentBackup.Artifact
