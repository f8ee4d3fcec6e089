import DeploymentBackup.Proofs.Artifact.Files
import DeploymentBackup.Proofs.Identifier

namespace DeploymentBackup.Artifact

open Text Disk

/-!
# The journal of an artifact

Every change of the record reads the file of the record, parses it, and writes all of it again.
What comes of many such changes can be told without any file: it depends on the operations that
have succeeded so far, in their order.

* `Step`, `performAll` — operations on an artifact, one behind the other.
* `Journal` — the operations that have succeeded.
* `Journal.verdict`, `Journal.record?`, `Journal.file` — what becomes of the next operation, and
  what the artifact holds, after those of a journal.
* `Mirrors` — the files of an artifact are those of its journal.
* `Follows`, `perform_mirrors` — one operation keeps it that way.
* `performAll_journal` — any number of operations on a new artifact.
-/

/-! ### Operations -/

/-- An operation that changes an artifact. -/
inductive Step
  | createMetadata (start : Instant)
  | addDigests (blob : Identifier) (digests : Digests)
  | addFinishTime (finish : Instant)
  | saveManifest (manifest : String)
  /-- The file of a blob is opened for writing, and written. -/
  | store (blob : Identifier) (contents : Bytes)

/-- Carries out an operation. -/
def perform (a : Artifact) (d : Disk) : Step → Except Fault Disk
  | .createMetadata start => a.createMetadata start d
  | .addDigests blob digests => a.addDigests blob digests d
  | .addFinishTime finish => a.addFinishTime finish d
  | .saveManifest manifest => a.saveManifest manifest d
  | .store blob contents => (a.createFile blob d).map fun (file, d) => d.write file contents

/-- The operations that have succeeded, the first one first. -/
abbrev Journal := List Step

/-- Carries out operations in order, and keeps those that succeed. One that fails leaves the disk
    as it is. -/
def performAll (a : Artifact) (d : Disk) : List Step → Journal × Disk
  | [] => ([], d)
  | s :: rest =>
    match a.perform d s with
    | .ok d' => (s :: (a.performAll d' rest).1, (a.performAll d' rest).2)
    | .error _ => a.performAll d rest

/-! ### The journal -/

namespace Journal

/-- The starts that were recorded. -/
def starts (j : Journal) : List Instant :=
  j.filterMap fun
    | .createMetadata start => some start
    | _ => none

/-- The finishes that were recorded. -/
def finishes (j : Journal) : List Instant :=
  j.filterMap fun
    | .addFinishTime finish => some finish
    | _ => none

/-- The blobs that were recorded, with their digests. -/
def entries (j : Journal) : List (Identifier × Digests) :=
  j.filterMap fun
    | .addDigests blob digests => some (blob, digests)
    | _ => none

/-- The manifests that were stored. -/
def manifests (j : Journal) : List String :=
  j.filterMap fun
    | .saveManifest manifest => some manifest
    | _ => none

/-- What was stored in the file of a name. -/
def stored (j : Journal) (name : String) : List Bytes :=
  j.filterMap fun
    | .store blob contents => if blob.fileName = name then some contents else none
    | _ => none

/-- The record of an instance, when the blob has an index. -/
def instanceRecord? (e : Identifier × Digests) : Option InstanceRecord :=
  e.1.index.map fun index => ⟨e.1.name, index, e.2⟩

/-- The record of a shared blob, when the blob has no index. -/
def blobRecord? (e : Identifier × Digests) : Option BlobRecord :=
  match e.1.index with
  | some _ => none
  | none => some ⟨e.1.name, e.2⟩

/-- The record: the first start, the last finish, and the blobs of either kind in the order in
    which they were recorded. There is none without a start. -/
def record? (j : Journal) : Option Metadata :=
  j.starts.head?.map fun start =>
    ⟨some start.stamp, j.finishes.getLast?.map Instant.stamp,
      j.entries.filterMap instanceRecord?, j.entries.filterMap blobRecord?⟩

/-- What becomes of one more operation on an artifact. -/
def verdict (a : Artifact) (j : Journal) : Step → Except Fault Unit
  | .createMetadata _ => if j.starts = [] then .ok () else .error .metadataExists
  | .addDigests blob _ =>
    if j.starts = [] then .error .metadataMissing
    else if blob ∈ j.entries.map (·.1) then .error (.duplicateEntry blob)
    else .ok ()
  | .addFinishTime _ => if j.starts = [] then .error .metadataMissing else .ok ()
  | .saveManifest _ => if j.manifests = [] then .ok () else .error .manifestExists
  | .store blob _ =>
    match fileName blob with
    | .error fault => .error fault
    | .ok name =>
      match nameFault? name with
      | some fault => .error (a.ioFault name fault)
      | none => .ok ()

/-- The contents of the files in the directory, by name. -/
def file (j : Journal) (name : String) : Option Bytes :=
  if name = metadataFile then j.record?.map fun m => encode m.print
  else if name = manifestFile then j.manifests.head?.map encode
  else (j.stored name).getLast?

theorem file_metadataFile (j : Journal) :
    j.file metadataFile = j.record?.map fun m => encode m.print :=
  if_pos rfl

theorem file_manifestFile (j : Journal) : j.file manifestFile = j.manifests.head?.map encode := by
  rw [file, if_neg (by decide), if_pos rfl]

theorem file_fileName (j : Journal) (blob : Identifier) :
    j.file blob.fileName = (j.stored blob.fileName).getLast? := by
  rw [file, if_neg (Ne.symm (fileName_ne (by decide) blob)),
    if_neg (Ne.symm (fileName_ne (by decide) blob))]

/-- The journals that there can be: the start and the manifest are stored once, so is each blob
    recorded, and nothing is recorded without a start. -/
structure Valid (j : Journal) : Prop where
  oneStart : j.starts.length ≤ 1
  oneManifest : j.manifests.length ≤ 1
  once : (j.entries.map (·.1)).Nodup
  unstarted : j.starts = [] → j.entries = [] ∧ j.finishes = []

theorem valid_nil : Valid [] where
  oneStart := Nat.zero_le 1
  oneManifest := Nat.zero_le 1
  once := List.nodup_nil
  unstarted := fun _ => ⟨rfl, rfl⟩

theorem record?_none {j : Journal} (h : j.starts = []) : j.record? = none := by
  rw [record?, h]
  rfl

theorem record?_some {j : Journal} (h : j.starts ≠ []) : ∃ m, j.record? = some m := by
  obtain ⟨start, rest, hstarts⟩ := List.exists_cons_of_ne_nil h
  rw [record?, hstarts]
  exact ⟨_, rfl⟩

theorem record?_isSome {j : Journal} : j.record?.isSome = true ↔ j.starts ≠ [] := by
  unfold record?
  cases j.starts <;> simp

section Verdict

variable {a : Artifact} {j : Journal}

theorem verdict_createMetadata {start : Instant} :
    j.verdict a (.createMetadata start) = .ok () ↔ j.starts = [] := by
  simp only [verdict]
  split <;> simp_all

theorem verdict_addDigests {blob : Identifier} {digests : Digests} :
    j.verdict a (.addDigests blob digests) = .ok () ↔
      j.starts ≠ [] ∧ blob ∉ j.entries.map (·.1) := by
  simp only [verdict]
  split
  · simp_all
  · split <;> simp_all

theorem verdict_addFinishTime {finish : Instant} :
    j.verdict a (.addFinishTime finish) = .ok () ↔ j.starts ≠ [] := by
  simp only [verdict]
  split <;> simp_all

theorem verdict_saveManifest {manifest : String} :
    j.verdict a (.saveManifest manifest) = .ok () ↔ j.manifests = [] := by
  simp only [verdict]
  split <;> simp_all

end Verdict

/-- One more operation that succeeds keeps a journal valid. -/
theorem Valid.concat {a : Artifact} {j : Journal} {s : Step} (h : j.Valid)
    (hs : j.verdict a s = .ok ()) :
    Valid (j ++ [s]) := by
  obtain ⟨hstarts, hmanifests, hentries, hunstarted⟩ := h
  cases s with
  | createMetadata start =>
    -- A record is created where there is none, so this start is the only one.
    have hnone := verdict_createMetadata.mp hs
    refine ⟨?_, by simpa [manifests] using hmanifests, by simpa [entries] using hentries, ?_⟩
    · rw [Journal.starts, List.filterMap_append, ← Journal.starts, hnone]
      exact Nat.le_refl 1
    · intro hc
      simp [Journal.starts] at hc
  | addDigests blob digests =>
    obtain ⟨hsome, hfresh⟩ := verdict_addDigests.mp hs
    refine ⟨by simpa [starts] using hstarts, by simpa [manifests] using hmanifests, ?_, ?_⟩
    · -- The blob comes behind those that were recorded, and it is none of them.
      have hlast : (entries (j ++ [.addDigests blob digests])).map (·.1) =
          j.entries.map (·.1) ++ [blob] := by
        simp [Journal.entries]
      rw [hlast]
      refine List.nodup_append.mpr ⟨hentries, by simp, ?_⟩
      rintro id hid other hother rfl
      rw [List.mem_singleton.mp hother] at hid
      exact hfresh hid
    · intro hc
      exact absurd (by simpa [Journal.starts] using hc) hsome
  | addFinishTime finish =>
    have hsome := verdict_addFinishTime.mp hs
    refine ⟨by simpa [starts] using hstarts, by simpa [manifests] using hmanifests,
      by simpa [entries] using hentries, ?_⟩
    intro hc
    exact absurd (by simpa [Journal.starts] using hc) hsome
  | saveManifest manifest =>
    -- So it is with the manifest.
    have hnone := verdict_saveManifest.mp hs
    refine ⟨by simpa [starts] using hstarts, ?_, by simpa [entries] using hentries,
      by simpa [starts, entries, finishes] using hunstarted⟩
    rw [Journal.manifests, List.filterMap_append, ← Journal.manifests, hnone]
    exact Nat.le_refl 1
  | store blob contents =>
    exact ⟨by simpa [starts] using hstarts, by simpa [manifests] using hmanifests,
      by simpa [entries] using hentries, by simpa [starts, entries, finishes] using hunstarted⟩

/-! ### The record of a journal -/

/-- The record with these blobs. -/
def recordOf (start finish : Option String) (es : List (Identifier × Digests)) : Metadata :=
  ⟨start, finish, es.filterMap instanceRecord?, es.filterMap blobRecord?⟩

/-- A blob is looked up in the section of its kind, and found where it was recorded first. -/
theorem digestsFor?_recordOf (start finish : Option String) (es : List (Identifier × Digests))
    (blob : Identifier) :
    (recordOf start finish es).digestsFor? blob = (es.find? (·.1 = blob)).map (·.2) := by
  unfold Metadata.digestsFor? recordOf
  -- The entries of the other kind are not in the section, and none of them is the blob.
  cases hindex : blob.index with
  | some index =>
    have hkind : ∀ e : Identifier × Digests, ((instanceRecord? e).any fun r =>
        r.name = blob.name && r.index = index) = decide (e.1 = blob) := by
      intro e
      rw [Bool.eq_iff_iff, decide_eq_true_iff, Identifier.eq_iff_name_index, hindex]
      cases he : e.1.index <;> simp [instanceRecord?, he]
    simp only [List.find?_filterMap, hkind]
    cases hfind : es.find? (·.1 = blob) with
    | none => rfl
    | some e =>
      have hsame : e.1 = blob := by simpa using List.find?_some hfind
      simp [instanceRecord?, hsame, hindex]
  | none =>
    have hkind : ∀ e : Identifier × Digests, ((blobRecord? e).any fun r =>
        r.name = blob.name) = decide (e.1 = blob) := by
      intro e
      rw [Bool.eq_iff_iff, decide_eq_true_iff, Identifier.eq_iff_name_index, hindex]
      cases he : e.1.index <;> simp [blobRecord?, he]
    simp only [List.find?_filterMap, hkind]
    cases hfind : es.find? (·.1 = blob) with
    | none => rfl
    | some e =>
      have hsame : e.1 = blob := by simpa using List.find?_some hfind
      simp [blobRecord?, hsame, hindex]

theorem insert?_recordOf (start finish : Option String) (es : List (Identifier × Digests))
    (blob : Identifier) (digests : Digests) :
    (recordOf start finish es).insert? blob digests =
      if blob ∈ es.map (·.1) then none
      else some (recordOf start finish (es ++ [(blob, digests)])) := by
  have hfound : ((recordOf start finish es).digestsFor? blob).isSome = true ↔
      blob ∈ es.map (·.1) := by
    rw [digestsFor?_recordOf, Option.isSome_map, List.find?_isSome]
    simp
  unfold Metadata.insert?
  by_cases hmem : blob ∈ es.map (·.1)
  · rw [if_pos hmem, if_pos (hfound.mpr hmem)]
  · rw [if_neg hmem, if_neg (mt hfound.mp hmem)]
    cases hindex : blob.index with
    | some index => simp [recordOf, instanceRecord?, blobRecord?, hindex]
    | none => simp [recordOf, instanceRecord?, blobRecord?, hindex]

theorem record?_eq (j : Journal) : j.record? = j.starts.head?.map fun start =>
    recordOf (some start.stamp) (j.finishes.getLast?.map Instant.stamp) j.entries :=
  rfl

/-! ### One more file -/

theorem record?_createMetadata {j : Journal} (h : j.Valid) (hnone : j.starts = [])
    (start : Instant) : record? (j ++ [.createMetadata start]) = some (firstRecord start) := by
  obtain ⟨hentries, hfinishes⟩ := h.unstarted hnone
  have hstarts : starts (j ++ [.createMetadata start]) = j.starts ++ [start] := by simp [starts]
  have hsame : entries (j ++ [.createMetadata start]) = j.entries := by simp [entries]
  have hkept : finishes (j ++ [.createMetadata start]) = j.finishes := by simp [finishes]
  rw [record?_eq, hstarts, hsame, hkept, hnone, hentries, hfinishes]
  rfl

theorem insert?_record? {j : Journal} {m : Metadata} (hm : j.record? = some m)
    (blob : Identifier) (digests : Digests) : m.insert? blob digests =
      if blob ∈ j.entries.map (·.1) then none
      else record? (j ++ [.addDigests blob digests]) := by
  rw [record?_eq, Option.map_eq_some_iff] at hm
  obtain ⟨start, hstart, rfl⟩ := hm
  have hstarts : starts (j ++ [.addDigests blob digests]) = j.starts := by simp [starts]
  have hfinishes : finishes (j ++ [.addDigests blob digests]) = j.finishes := by simp [finishes]
  have hentries : entries (j ++ [.addDigests blob digests]) = j.entries ++ [(blob, digests)] := by
    simp [entries]
  rw [insert?_recordOf, record?_eq, hstarts, hfinishes, hentries, hstart]
  rfl

theorem record?_addFinishTime {j : Journal} {m : Metadata} (hm : j.record? = some m)
    (finish : Instant) : record? (j ++ [.addFinishTime finish]) =
      some { m with finishTime := some finish.stamp } := by
  rw [record?_eq, Option.map_eq_some_iff] at hm
  obtain ⟨start, hstart, rfl⟩ := hm
  have hstarts : starts (j ++ [.addFinishTime finish]) = j.starts := by simp [starts]
  have hfinishes : finishes (j ++ [.addFinishTime finish]) = j.finishes ++ [finish] := by
    simp [finishes]
  have hentries : entries (j ++ [.addFinishTime finish]) = j.entries := by simp [entries]
  rw [record?_eq, hstarts, hfinishes, hentries, hstart, List.getLast?_concat]
  rfl

theorem manifests_concat (j : Journal) (manifest : String) :
    manifests (j ++ [.saveManifest manifest]) = j.manifests ++ [manifest] := by
  simp [manifests]

theorem stored_concat (j : Journal) (blob : Identifier) (contents : Bytes) :
    stored (j ++ [.store blob contents]) blob.fileName = j.stored blob.fileName ++ [contents] := by
  simp [stored]

/-- The file that an operation writes. -/
def written : Step → String
  | .createMetadata _ | .addDigests .. | .addFinishTime _ => metadataFile
  | .saveManifest _ => manifestFile
  | .store blob _ => blob.fileName

/-- An operation does not change what is in another file. -/
theorem file_concat {j : Journal} {s : Step} {name : String} (h : name ≠ written s) :
    file (j ++ [s]) name = j.file name := by
  cases s with
  | createMetadata start =>
    have hname : name ≠ metadataFile := h
    simp [file, hname, manifests, stored]
  | addDigests blob digests =>
    have hname : name ≠ metadataFile := h
    simp [file, hname, manifests, stored]
  | addFinishTime finish =>
    have hname : name ≠ metadataFile := h
    simp [file, hname, manifests, stored]
  | saveManifest manifest =>
    have hname : name ≠ manifestFile := h
    simp [file, hname, record?, starts, finishes, entries, stored]
  | store blob contents =>
    have hname : ¬ blob.fileName = name := fun hc => h hc.symm
    simp [file, hname, record?, starts, finishes, entries, manifests, stored]

end Journal

/-! ### The files are those of the journal -/

/-- What stands at a name of the directory: nothing, or a file with these contents. -/
def Shows (a : Artifact) (d : Disk) (name : String) : Option Bytes → Prop
  | none => d.get? (a.directory.entry name) = none
  | some contents =>
    ∃ executable, d.get? (a.directory.entry name) = some (.file contents executable)

/-- The files of the artifact are those of the journal. -/
structure Mirrors (a : Artifact) (j : Journal) (d : Disk) : Prop where
  sound : a.Sound d
  files : ∀ name, a.Shows d name (j.file name)

namespace Mirrors

variable {a : Artifact} {j : Journal} {d d' : Disk}

/-- There is a file or nothing in the place of every file. -/
theorem writable (h : a.Mirrors j d) (name : String) (entry : Entry)
    (he : d.get? (a.directory.entry name) = some entry) :
    ∃ old executable, entry = .file old executable := by
  have hshows := h.files name
  cases hfile : j.file name with
  | none =>
    rw [hfile] at hshows
    exact overwritable_of_free hshows entry he
  | some contents =>
    rw [hfile] at hshows
    obtain ⟨executable, hshows⟩ := hshows
    exact overwritable_of_file hshows entry he

theorem existsIn_eq (h : a.Mirrors j d) {name : String} (hplain : PlainName name)
    (hfits : nameFault? name = none) :
    d.existsIn a.directory name = (j.file name).isSome := by
  have hshows := h.files name
  unfold existsIn
  rw [resolveIn_plain hplain h.sound hfits]
  cases hfile : j.file name with
  | none =>
    rw [hfile, Shows] at hshows
    rw [hshows]
    rfl
  | some contents =>
    rw [hfile] at hshows
    obtain ⟨executable, hshows⟩ := hshows
    rw [hshows]
    rfl

theorem readTextIn_eq (h : a.Mirrors j d) {name : String} (hplain : PlainName name)
    (hfits : nameFault? name = none) :
    d.readTextIn a.directory name =
      match j.file name with
      | none => .error .notFound
      | some contents => textOf contents := by
  have hshows := h.files name
  unfold readTextIn
  rw [resolveIn_plain hplain h.sound hfits]
  cases hfile : j.file name with
  | none =>
    rw [hfile, Shows] at hshows
    rw [hshows]
  | some contents =>
    rw [hfile] at hshows
    obtain ⟨executable, hshows⟩ := hshows
    rw [hshows]

/-- The record that is read is that of the journal. -/
theorem metadata_eq (h : a.Mirrors j d) :
    a.metadata d = match j.record? with
      | none => .error .metadataMissing
      | some m => .ok m := by
  unfold metadata
  rw [h.readTextIn_eq plain_metadataFile fits_metadataFile, j.file_metadataFile]
  cases j.record? with
  | none => rfl
  | some m =>
    simp only [Option.map_some, textOf, decode?_encode, Metadata.parse_print]
    rfl

/-- The manifest that is read is the one that was stored. -/
theorem manifest_eq (h : a.Mirrors j d) :
    a.manifest d = match j.manifests.head? with
      | none => .error (a.ioFault manifestFile .notFound)
      | some manifest => .ok manifest := by
  unfold manifest
  rw [h.readTextIn_eq plain_manifestFile fits_manifestFile, j.file_manifestFile]
  cases j.manifests.head? with
  | none => rfl
  | some manifest =>
    simp only [Option.map_some, textOf, decode?_encode]
    rfl

/-- What is read of a blob is what was last stored in the file of its name. -/
theorem openFile_eq (h : a.Mirrors j d) {blob : Identifier} (hblob : Admits blob) :
    a.openFile blob d = match (j.stored blob.fileName).getLast? with
      | none => .error (.blobMissing blob)
      | some contents => .ok (.of contents) := by
  have hshows := h.files blob.fileName
  rw [j.file_fileName] at hshows
  unfold openFile openIn
  rw [hblob.name]
  simp only [resolveIn_plain hblob.plain h.sound hblob.fits]
  cases hstored : (j.stored blob.fileName).getLast? with
  | none =>
    rw [hstored, Shows] at hshows
    simp only [hshows]
  | some contents =>
    rw [hstored] at hshows
    obtain ⟨executable, hshows⟩ := hshows
    simp only [hshows, sourceOf]

/-- To write the file of an operation as the journal has it keeps all files as the journal has
    them. -/
theorem of_stores (h : a.Mirrors j d) {s : Step} {contents : Bytes}
    (hstores : Stores d d' (a.directory.entry (Journal.written s)) contents)
    (hfile : Journal.file (j ++ [s]) (Journal.written s) = some contents) :
    a.Mirrors (j ++ [s]) d' where
  sound := hstores.clean h.sound
  files := by
    intro name
    by_cases hname : name = Journal.written s
    · rw [hname, hfile]
      exact hstores.here
    · -- The step has written to no other file.
      have hshows := h.files name
      rw [Journal.file_concat hname]
      have hsame := hstores.elsewhere (a.directory.entry name)
        fun hc => hname (Handle.entry_injective hc)
      cases hold : j.file name with
      | none =>
        rw [hold, Shows] at hshows
        rw [Shows, hsame, hshows]
      | some old =>
        rw [hold] at hshows
        obtain ⟨executable, hshows⟩ := hshows
        exact ⟨executable, by rw [hsame, hshows]⟩

/-- The record can be written again and again. -/
theorem writeMetadata (h : a.Mirrors j d) {s : Step} {m : Metadata}
    (hwritten : Journal.written s = metadataFile) (hm : Journal.record? (j ++ [s]) = some m) :
    ∃ d', a.writeMetadata m d = .ok d' ∧ a.Mirrors (j ++ [s]) d' := by
  obtain ⟨d', hwrite⟩ := writeIn_file plain_metadataFile h.sound fits_metadataFile
    (h.writable metadataFile) (encode m.print)
  have hok : a.writeMetadata m d = .ok d' := by
    unfold Artifact.writeMetadata
    rw [hwrite]
    rfl
  have hstores : Stores d d' (a.directory.entry (Journal.written s)) (encode m.print) := by
    rw [hwritten]
    exact writeMetadata_stores h.sound hok
  refine ⟨d', hok, h.of_stores hstores ?_⟩
  rw [hwritten, Journal.file_metadataFile, hm]
  rfl

/-- The manifest is stored once. -/
theorem saveManifest (h : a.Mirrors j d) (hnone : j.manifests = []) (manifest : String) :
    ∃ d', a.saveManifest manifest d = .ok d' ∧ a.Mirrors (j ++ [.saveManifest manifest]) d' := by
  have hfile : j.file manifestFile = none := by
    rw [j.file_manifestFile, hnone]
    rfl
  obtain ⟨d', hwrite⟩ := writeIn_file plain_manifestFile h.sound fits_manifestFile
    (h.writable manifestFile) (encode manifest)
  have hok : a.saveManifest manifest d = .ok d' := by
    unfold Artifact.saveManifest
    rw [h.existsIn_eq plain_manifestFile fits_manifestFile, hfile, hwrite]
    rfl
  refine ⟨d', hok, h.of_stores (saveManifest_stores h.sound hok) ?_⟩
  rw [Journal.written, Journal.file_manifestFile, Journal.manifests_concat, hnone]
  rfl

/-- The file of a blob is written again and again. -/
theorem store (h : a.Mirrors j d) {blob : Identifier} (hblob : Admits blob) (contents : Bytes) :
    ∃ d', a.perform d (.store blob contents) = .ok d' ∧
      a.Mirrors (j ++ [.store blob contents]) d' := by
  obtain ⟨file, d₁, hcreate⟩ := createFile_ok h.sound hblob (h.writable blob.fileName)
  obtain ⟨-, hstores⟩ := createFile_stores h.sound hcreate
  refine ⟨d₁.write file contents, ?_, h.of_stores (hstores contents) ?_⟩
  · rw [perform, hcreate]
    rfl
  · rw [Journal.written, Journal.file_fileName, Journal.stored_concat, List.getLast?_concat]

/-- The files of an artifact in an empty directory are those of no operation. -/
theorem of_bare (hsound : a.Sound d) (hbare : d.Bare a.directory.path) : a.Mirrors [] d where
  sound := hsound
  files := by
    intro name
    have hnone : Journal.file [] name = none := by
      simp [Journal.file, Journal.record?, Journal.starts, Journal.manifests, Journal.stored]
    rw [hnone]
    exact hbare name []

end Mirrors

/-! ### Many operations -/

section

variable {a : Artifact} {j : Journal} {d : Disk}

/-- An operation ends as the journal says, and when it succeeds it joins the journal. -/
def Follows (a : Artifact) (j : Journal) (d : Disk) (s : Step) : Prop :=
  (∃ d', a.perform d s = .ok d' ∧ j.verdict a s = .ok () ∧ a.Mirrors (j ++ [s]) d') ∨
    ∃ fault, a.perform d s = .error fault ∧ j.verdict a s = .error fault

theorem follows_createMetadata (h : a.Mirrors j d) (hj : j.Valid) (start : Instant) :
    a.Follows j d (.createMetadata start) := by
  have hthere := h.existsIn_eq plain_metadataFile fits_metadataFile
  rw [j.file_metadataFile, Option.isSome_map] at hthere
  by_cases hnone : j.starts = []
  · obtain ⟨d', hwrite, hmirrors⟩ :=
      h.writeMetadata rfl (Journal.record?_createMetadata hj hnone start)
    refine .inl ⟨d', ?_, if_pos hnone, hmirrors⟩
    rw [perform, Artifact.createMetadata, hthere, Journal.record?_none hnone]
    exact hwrite
  · refine .inr ⟨.metadataExists, ?_, if_neg hnone⟩
    rw [perform, Artifact.createMetadata, hthere, if_pos (Journal.record?_isSome.mpr hnone)]

theorem follows_addDigests (h : a.Mirrors j d) (blob : Identifier) (digests : Digests) :
    a.Follows j d (.addDigests blob digests) := by
  have hmetadata := h.metadata_eq
  by_cases hnone : j.starts = []
  · refine .inr ⟨.metadataMissing, ?_, if_pos hnone⟩
    rw [perform, Artifact.addDigests, hmetadata, Journal.record?_none hnone]
  · obtain ⟨m, hm⟩ := Journal.record?_some hnone
    have hinsert := Journal.insert?_record? hm blob digests
    rw [hm] at hmetadata
    by_cases hmem : blob ∈ j.entries.map (·.1)
    · refine .inr ⟨.duplicateEntry blob, ?_, ?_⟩
      · rw [perform, Artifact.addDigests, hmetadata]
        simp only [hinsert, if_pos hmem]
      · rw [Journal.verdict, if_neg hnone, if_pos hmem]
    · have hsome : Journal.starts (j ++ [.addDigests blob digests]) ≠ [] := by
        simpa [Journal.starts] using hnone
      obtain ⟨m', hm'⟩ := Journal.record?_some hsome
      obtain ⟨d', hwrite, hmirrors⟩ := h.writeMetadata rfl hm'
      refine .inl ⟨d', ?_, ?_, hmirrors⟩
      · rw [perform, Artifact.addDigests, hmetadata]
        simp only [hinsert, if_neg hmem, hm', hwrite]
      · rw [Journal.verdict, if_neg hnone, if_neg hmem]

theorem follows_addFinishTime (h : a.Mirrors j d) (finish : Instant) :
    a.Follows j d (.addFinishTime finish) := by
  have hmetadata := h.metadata_eq
  by_cases hnone : j.starts = []
  · refine .inr ⟨.metadataMissing, ?_, if_pos hnone⟩
    rw [perform, Artifact.addFinishTime, hmetadata, Journal.record?_none hnone]
  · obtain ⟨m, hm⟩ := Journal.record?_some hnone
    obtain ⟨d', hwrite, hmirrors⟩ := h.writeMetadata rfl (Journal.record?_addFinishTime hm finish)
    refine .inl ⟨d', ?_, if_neg hnone, hmirrors⟩
    rw [perform, Artifact.addFinishTime, hmetadata, hm]
    exact hwrite

theorem follows_saveManifest (h : a.Mirrors j d) (manifest : String) :
    a.Follows j d (.saveManifest manifest) := by
  by_cases hnone : j.manifests = []
  · obtain ⟨d', hsave, hmirrors⟩ := h.saveManifest hnone manifest
    exact .inl ⟨d', hsave, if_pos hnone, hmirrors⟩
  · refine .inr ⟨.manifestExists, ?_, if_neg hnone⟩
    obtain ⟨first, rest, hfirst⟩ := List.exists_cons_of_ne_nil hnone
    rw [perform, Artifact.saveManifest, h.existsIn_eq plain_manifestFile fits_manifestFile,
      j.file_manifestFile, hfirst]
    rfl

theorem follows_store (h : a.Mirrors j d) (blob : Identifier) (contents : Bytes) :
    a.Follows j d (.store blob contents) := by
  unfold Follows
  rw [Journal.verdict]
  cases hname : fileName blob with
  | error fault =>
    refine .inr ⟨fault, ?_, rfl⟩
    rw [perform, Artifact.createFile, hname]
    rfl
  | ok name =>
    obtain ⟨rfl, hplain⟩ := fileName_spec hname
    cases hfits : nameFault? blob.fileName with
    | some fault =>
      refine .inr ⟨a.ioFault blob.fileName fault, ?_, by simp only [hfits]⟩
      rw [perform, Artifact.createFile, hname]
      simp only [createIn, resolveIn_refused hplain h.sound hfits]
      rfl
    | none =>
      obtain ⟨d', hstore, hmirrors⟩ := h.store ⟨hname, hfits⟩ contents
      exact .inl ⟨d', hstore, by simp only [hfits], hmirrors⟩

theorem perform_mirrors (h : a.Mirrors j d) (hj : j.Valid) (s : Step) : a.Follows j d s := by
  cases s with
  | createMetadata start => exact follows_createMetadata h hj start
  | addDigests blob digests => exact follows_addDigests h blob digests
  | addFinishTime finish => exact follows_addFinishTime h finish
  | saveManifest manifest => exact follows_saveManifest h manifest
  | store blob contents => exact follows_store h blob contents

/-- Operations that are carried out on an artifact join its journal. -/
theorem performAll_mirrors (h : a.Mirrors j d) (hj : j.Valid) (steps : List Step) :
    a.Mirrors (j ++ (a.performAll d steps).1) (a.performAll d steps).2 ∧
      Journal.Valid (j ++ (a.performAll d steps).1) := by
  induction steps generalizing j d with
  | nil =>
    rw [performAll, List.append_nil]
    exact ⟨h, hj⟩
  | cons s rest ih =>
    rw [performAll]
    -- What succeeds joins the journal of the rest; what fails leaves the disk to it.
    rcases perform_mirrors h hj s with ⟨d', hdone, hverdict, hmirrors⟩ | ⟨fault, hfailed, -⟩
    · have hrest := ih hmirrors (hj.concat hverdict)
      rw [List.append_assoc, List.singleton_append] at hrest
      simpa only [hdone] using hrest
    · simpa only [hfailed] using ih h hj

/-- Whatever operations are carried out on a new artifact, those that succeed tell what becomes of
    the next one and what is read. The directory of the artifact is empty to begin with, as it is
    by `createAt_bare`. -/
theorem performAll_journal {path : String} {d₀ : Disk} (hcreate : createAt d path = (.ok a, d₀))
    (hempty : d₀.Bare a.directory.path) (steps : List Step) :
    let j := (a.performAll d₀ steps).1
    let d' := (a.performAll d₀ steps).2
    j.Valid ∧
      (∀ s, (a.perform d' s).map (fun _ => ()) = j.verdict a s) ∧
      (d'.existsIn a.directory metadataFile = true ↔ j.starts ≠ []) ∧
      a.metadata d' = j.record?.elim (.error .metadataMissing) .ok ∧
      (∀ blob, a.fetchDigests blob d' =
        if j.starts = [] then .error .metadataMissing
        else .ok ((j.entries.find? (·.1 = blob)).map (·.2))) ∧
      a.manifest d' = j.manifests.head?.elim (.error (a.ioFault manifestFile .notFound)) .ok ∧
      ∀ blob, Admits blob → a.openFile blob d' =
        (j.stored blob.fileName).getLast?.elim (.error (.blobMissing blob)) (.ok <| .of ·) := by
  intro j d'
  -- The new artifact mirrors the empty journal; every operation keeps it a mirror.
  have hnew : a.Mirrors [] d₀ := .of_bare (sound_of_bare hcreate hempty) hempty
  obtain ⟨hmirrors, hvalid⟩ := performAll_mirrors hnew Journal.valid_nil steps
  change a.Mirrors j d' at hmirrors
  change j.Valid at hvalid
  have hmetadata : a.metadata d' = j.record?.elim (.error .metadataMissing) .ok := by
    rw [hmirrors.metadata_eq]
    cases j.record? <;> rfl
  refine ⟨hvalid, ?_, ?_, hmetadata, ?_, ?_, ?_⟩
  · intro s
    rcases perform_mirrors hmirrors hvalid s with ⟨d₁, hdone, hs, -⟩ | ⟨fault, hfailed, hs⟩
    · rw [hdone, hs]
      rfl
    · rw [hfailed, hs]
      rfl
  · rw [hmirrors.existsIn_eq plain_metadataFile fits_metadataFile, j.file_metadataFile,
      Option.isSome_map, Journal.record?_isSome]
  · intro blob
    rw [fetchDigests, hmetadata, j.record?_eq]
    cases hstarts : j.starts with
    | nil => rfl
    | cons start rest =>
      rw [if_neg (by simp)]
      exact congrArg Except.ok (Journal.digestsFor?_recordOf _ _ j.entries blob)
  · rw [hmirrors.manifest_eq]
    cases j.manifests.head? <;> rfl
  · intro blob hblob
    rw [hmirrors.openFile_eq hblob]
    cases (j.stored blob.fileName).getLast? <;> rfl

theorem error_of_outcome {x : Except Fault Disk} {fault : Fault}
    (h : x.map (fun _ => ()) = .error fault) : x = .error fault := by
  cases x with
  | error other =>
    cases h
    rfl
  | ok d => cases h

theorem ok_of_outcome {x : Except Fault Disk} (h : x.map (fun _ => ()) = .ok ()) :
    ∃ d, x = .ok d := by
  cases x with
  | error fault => cases h
  | ok d => exact ⟨d, rfl⟩

/-- In a new artifact no blob is recorded until the record has been made, and it can be made. -/
theorem performAll_journal_fresh :
    ∃ a d₀, createAt fresh "x" = (.ok a, d₀) ∧ d₀.Bare a.directory.path ∧
      a.addDigests (.named "a") .empty d₀ = .error .metadataMissing ∧
      ∃ d', a.createMetadata ⟨0, false⟩ d₀ = .ok d' := by
  have hplain : PlainName "x" := ⟨by decide, by decide, by decide, by decide⟩
  have hfree : fresh.get? (fresh.workdir ++ ["x"]) = none := by decide
  have hcreate := createAt_plain hplain (by decide) hfree
  have hbare := (rooted_fresh.bare hfree).makeDirectory (by simp)
  obtain ⟨-, hnext, -⟩ := performAll_journal hcreate hbare []
  exact ⟨_, _, hcreate, hbare, error_of_outcome (hnext (.addDigests (.named "a") .empty)),
    ok_of_outcome (hnext (.createMetadata ⟨0, false⟩))⟩

/-! ### A path that goes up again -/

/-- The disk on which an artifact was made at a path that goes up behind a step with the name of
    the record. -/
def recordAbove : Disk :=
  (fresh.makeDirectory ["work", "x"]).makeDirectory ["work", "x", metadataFile]

/-- The directory of a step behind which a path goes up is made as well. -/
theorem createAt_above : createAt fresh "x/metadata/.." =
    (.ok ⟨"x/metadata/..", ⟨["work", "x"], 2⟩⟩, recordAbove) := by
  let d₁ := fresh.makeDirectory ["work", "x"]
  -- The steps are followed on the disk with neither directory, with the first, and with both.
  have hmissing (follow : Bool) (rest : List String) :
      fresh.walk none follow mostLinks ["work"] ("x" :: rest) =
        if rest.isEmpty then .ok (.free ["work", "x"]) else .error .notFound := by
    rw [walk_free (by decide) (by decide) (by decide) (by decide)]
    rfl
  have hlast : d₁.walk none false mostLinks ["work"] ["x", metadataFile] =
      .ok (.free ["work", "x", metadataFile]) := by
    have hx : d₁.get? (["work"] ++ ["x"]) = some (.directory 2) := by decide
    rw [walk_directory (by decide) (by decide) (by decide) hx,
      walk_free (by decide) (by decide) (by decide) (by decide)]
    rfl
  have hthere (follow : Bool) :
      recordAbove.walk none follow mostLinks ["work"] ["x", metadataFile, ".."] =
        .ok (.entry ["work", "x"] (.directory 2)) := by
    have hx : recordAbove.get? (["work"] ++ ["x"]) = some (.directory 2) := by decide
    have hbelow : recordAbove.get? (["work"] ++ ["x"] ++ [metadataFile]) = some (.directory 3) := by
      decide
    rw [walk_directory (by decide) (by decide) (by decide) hx,
      walk_directory (by decide) (by decide) (by decide) hbelow,
      walk_above (by simp), walk]
    rfl
  have hresolve (d : Disk) (hd : d.workdir = ["work"]) (follow : Bool) :
      d.resolve follow "x/metadata/.." =
        d.walk none follow mostLinks ["work"] ["x", metadataFile, ".."] := by
    rw [← hd]
    rfl
  have hresolve' (d : Disk) (hd : d.workdir = ["work"]) :
      d.resolve false "x/metadata" = d.walk none false mostLinks ["work"] ["x", metadataFile] := by
    rw [← hd]
    rfl
  have hfirst : fresh.resolve false "x" = fresh.walk none false mostLinks ["work"] ["x"] := rfl
  have hdirectory : recordAbove.directoryAt "x/metadata/.." = .ok ⟨["work", "x"], 2⟩ := by
    rw [directoryAt, hresolve recordAbove rfl, hthere]
  have hmade : fresh.makeSteps "" ["metadata", "x"] = (.ok (), recordAbove) := by
    have hpath : "" ++ "/".intercalate ["metadata", "x"].reverse = "x/metadata" := by decide
    have hpath' : "" ++ "/".intercalate ["x"].reverse = "x" := by decide
    rw [makeSteps, hpath]
    simp only [makeSteps, hpath', makeDirectoryAt, hresolve' fresh rfl, hfirst, hmissing,
      List.isEmpty_cons, List.isEmpty_nil, Bool.false_eq_true, if_false, if_true]
    rw [hresolve' d₁ rfl, hlast]
    rfl
  have hsteps : fresh.makeSteps "" ["..", "metadata", "x"] = (.ok (), recordAbove) := by
    have hpath : "" ++ "/".intercalate ["..", "metadata", "x"].reverse = "x/metadata/.." := by
      decide
    have hisDirectory : recordAbove.isDirectory "x/metadata/.." = true := by
      rw [isDirectory, hdirectory]
      rfl
    rw [makeSteps, hpath]
    simp only [makeDirectoryAt, hresolve fresh rfl, hresolve recordAbove rfl, hmissing, hmade,
      hthere, List.isEmpty_cons, Bool.false_eq_true, if_false, hisDirectory, if_true]
  have hfree : fresh.exists? "x/metadata/.." = false := by
    rw [exists?, hresolve fresh rfl, hmissing]
    rfl
  have hmake : fresh.makeDirectories "x/metadata/.." = (.ok (), recordAbove) := by
    rw [← hsteps]
    rfl
  rw [createAt, hfree, if_neg (by decide)]
  simp only [hmake, openAt, hdirectory]

/-- A new artifact in which the name of the record is taken cannot be given a record, and in one
    that has no record yet there is no answer for a blob. -/
theorem record_refused :
    (∃ a d₀, createAt fresh "x/metadata/.." = (.ok a, d₀) ∧
      a.createMetadata ⟨0, false⟩ d₀ = .error .metadataExists ∧
      Journal.verdict a [] (.createMetadata ⟨0, false⟩) = .ok ()) ∧
    ∃ a d₀, createAt fresh "x" = (.ok a, d₀) ∧
      a.fetchDigests (.named "a") d₀ = .error .metadataMissing := by
  constructor
  · have hsound := sound_of_vacant createAt_above (rooted_fresh.vacant (by decide))
    have hexists : recordAbove.existsIn ⟨["work", "x"], 2⟩ metadataFile = true := by
      rw [existsIn, resolveIn_plain plain_metadataFile hsound fits_metadataFile]
      rfl
    refine ⟨_, recordAbove, createAt_above, ?_, rfl⟩
    rw [createMetadata, hexists, if_pos rfl]
  · have hplain : PlainName "x" := ⟨by decide, by decide, by decide, by decide⟩
    have hfree : fresh.get? (fresh.workdir ++ ["x"]) = none := by decide
    have hcreate := createAt_plain hplain (by decide) hfree
    have hbare := (rooted_fresh.bare hfree).makeDirectory (by simp)
    have hmirrors := Mirrors.of_bare (sound_of_bare hcreate hbare) hbare
    refine ⟨_, _, hcreate, ?_⟩
    rw [fetchDigests, hmirrors.metadata_eq]
    rfl

end

end DeploymentBackup.Artifact
