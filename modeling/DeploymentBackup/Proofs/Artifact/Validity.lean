import DeploymentBackup.Proofs.Archive.Members
import DeploymentBackup.Proofs.Artifact.Files
import DeploymentBackup.Proofs.Disk.Replace

namespace DeploymentBackup.Artifact

open Text Disk

/-!
# What a check of an artifact finds

A check goes through the recorded blobs in their order and ends at the first one whose data file is
not what was recorded. It tells a file that is missing or that holds something else, which makes
the artifact invalid, from a file that cannot be looked at, which is a failure of the check.

* `Fares` — what is found of one recorded blob.
* `isValid_iff`, `isValid_eq_iff` — what a check finds, by the blobs.
* `IsDataFile` — the file of a blob, or the link to it.
* `isValid_exact` — a check, and a check after a data file was replaced or removed.
-/

variable {a : Artifact} {d d' : Disk} {m : Metadata} {r : Identifier × Digests}

/-! ### One blob -/

/-- What is found of a recorded blob. -/
inductive Fares (a : Artifact) (d : Disk) (r : Identifier × Digests) : Except Fault Bool → Prop
  /-- No data file can have this identifier. -/
  | inadmissible (hname : fileName r.1 = .error (.invalidIdentifier r.1)) :
    Fares a d r (.error (.invalidIdentifier r.1))
  /-- There is no data file. -/
  | missing {name : String} (hname : fileName r.1 = .ok name)
    (hopen : d.openIn a.directory name = .error .notFound) : Fares a d r (.ok false)
  /-- The data file cannot be opened. -/
  | unopened {name : String} {fault : Disk.Fault} (hname : fileName r.1 = .ok name)
    (hopen : d.openIn a.directory name = .error fault) (hfault : fault ≠ .notFound) :
    Fares a d r (.error (a.ioFault name fault))
  /-- The data file is no archive. -/
  | unreadable {name : String} {source : Source} {fault : Digests.Fault}
    (hname : fileName r.1 = .ok name) (hopen : d.openIn a.directory name = .ok source)
    (hread : Digests.ofSource source = .error fault) : Fares a d r (.error (.checksum r.1 fault))
  /-- The archive holds something else. -/
  | altered {name : String} {source : Source} {actual : Digests}
    (hname : fileName r.1 = .ok name) (hopen : d.openIn a.directory name = .ok source)
    (hread : Digests.ofSource source = .ok actual) (hdiffers : actual ≠ r.2) :
    Fares a d r (.ok false)
  /-- The archive holds what is recorded. -/
  | intact {name : String} {source : Source} (hname : fileName r.1 = .ok name)
    (hopen : d.openIn a.directory name = .ok source)
    (hread : Digests.ofSource source = .ok r.2) : Fares a d r (.ok true)

theorem fileName_error {blob : Identifier} {fault : Fault} (h : fileName blob = .error fault) :
    fault = .invalidIdentifier blob := by
  unfold fileName at h
  split at h
  · cases h
    rfl
  · cases h

theorem openFile_unopened {blob : Identifier} {name : String} {fault : Disk.Fault}
    (hname : fileName blob = .ok name) (hopen : d.openIn a.directory name = .error fault)
    (hfault : fault ≠ .notFound) : a.openFile blob d = .error (a.ioFault name fault) := by
  unfold openFile
  rw [hname]
  cases fault with
  | notFound => exact absurd rfl hfault
  | _ => simp only [hopen]

/-- Something is found of every blob. -/
theorem exists_fares (a : Artifact) (d : Disk) (r : Identifier × Digests) :
    ∃ result, Fares a d r result := by
  cases hname : fileName r.1 with
  | error fault =>
    obtain rfl := fileName_error hname
    exact ⟨_, .inadmissible hname⟩
  | ok name =>
    cases hopen : d.openIn a.directory name with
    | error fault =>
      by_cases hfault : fault = .notFound
      · exact ⟨_, .missing hname (hfault ▸ hopen)⟩
      · exact ⟨_, .unopened hname hopen hfault⟩
    | ok source =>
      cases hread : Digests.ofSource source with
      | error fault => exact ⟨_, .unreadable hname hopen hread⟩
      | ok actual =>
        by_cases hsame : actual = r.2
        · exact ⟨_, .intact hname hopen (hsame ▸ hread)⟩
        · exact ⟨_, .altered hname hopen hread hsame⟩

/-- A name that holds a zero character is that of no missing file: whatever the directory holds, to
    look for such a file is a failure of the check. -/
theorem fares_zeroByte {name : String} (hname : fileName r.1 = .ok name)
    (hzero : hasChar name '\x00' = true) : Fares a d r (.error (a.ioFault name .invalid)) := by
  refine .unopened hname ?_ (by decide)
  unfold openIn resolveIn
  simp only [hzero, if_true]

/-- A check goes on behind a blob that is what was recorded. -/
theorem allAgree_of_intact (h : Fares a d r (.ok true)) (rest : List (Identifier × Digests)) :
    a.allAgree d (r :: rest) = a.allAgree d rest := by
  obtain ⟨id, digests⟩ := r
  cases h with
  | intact hname hopen hread =>
    have hdigests : a.calculateDigests id d = .ok digests := by
      unfold calculateDigests openFile
      simp only [hname, hopen, hread, Except.mapError]
    rw [allAgree, hdigests]
    exact if_pos (by simp [Digests.agrees])

/-- A check ends with what is found of any other blob. -/
theorem allAgree_of_fails {result : Except Fault Bool} (h : Fares a d r result)
    (hfails : result ≠ .ok true) (rest : List (Identifier × Digests)) :
    a.allAgree d (r :: rest) = result := by
  obtain ⟨id, digests⟩ := r
  rw [allAgree]
  unfold calculateDigests
  cases h with
  | inadmissible hname =>
    unfold openFile
    simp only [hname]
  | missing hname hopen =>
    unfold openFile
    simp only [hname, hopen]
  | unopened hname hopen hfault =>
    rw [openFile_unopened hname hopen hfault]
    rfl
  | unreadable hname hopen hread =>
    unfold openFile
    simp only [hname, hopen, hread, Except.mapError]
  | altered hname hopen hread hdiffers =>
    unfold openFile
    simp only [hname, hopen, hread, Except.mapError]
    exact if_neg (by simpa [Digests.agrees] using hdiffers)
  | intact => exact absurd rfl hfails

/-- Only one thing is found of a blob. -/
theorem Fares.unique {result result' : Except Fault Bool} (h : Fares a d r result)
    (h' : Fares a d r result') : result = result' := by
  have hcheck {result : Except Fault Bool} (h : Fares a d r result) :
      a.allAgree d [r] = result := by
    by_cases hfails : result = .ok true
    · subst hfails
      rw [allAgree_of_intact h, allAgree]
    · exact allAgree_of_fails h hfails []
  rw [← hcheck h, ← hcheck h']

/-! ### All blobs -/

/-- The first blob that is not what was recorded. -/
def Decides (a : Artifact) (d : Disk) (recorded : List (Identifier × Digests))
    (result : Except Fault Bool) : Prop :=
  ∃ before r after, recorded = before ++ r :: after ∧
    (∀ b ∈ before, Fares a d b (.ok true)) ∧ Fares a d r result

theorem allAgree_append {before : List (Identifier × Digests)}
    (h : ∀ b ∈ before, Fares a d b (.ok true)) (rest : List (Identifier × Digests)) :
    a.allAgree d (before ++ rest) = a.allAgree d rest := by
  induction before with
  | nil => rfl
  | cons b more ih =>
    rw [List.cons_append, allAgree_of_intact (h b List.mem_cons_self),
      ih fun b' hb' => h b' (List.mem_cons_of_mem _ hb')]

/-- All blobs are what was recorded, or there is a first one that is not. -/
theorem all_or_decides (a : Artifact) (d : Disk) (recorded : List (Identifier × Digests)) :
    (∀ r ∈ recorded, Fares a d r (.ok true)) ∨
      ∃ result, result ≠ .ok true ∧ Decides a d recorded result := by
  induction recorded with
  | nil => exact .inl fun r hr => absurd hr List.not_mem_nil
  | cons r rest ih =>
    obtain ⟨result, hresult⟩ := exists_fares a d r
    by_cases hfails : result = .ok true
    · rw [hfails] at hresult
      rcases ih with hall | ⟨result', hfails', before, r', after, rfl, hbefore, hr'⟩
      · exact .inl (List.forall_mem_cons.mpr ⟨hresult, hall⟩)
      · exact .inr ⟨result', hfails', r :: before, r', after, rfl,
          List.forall_mem_cons.mpr ⟨hresult, hbefore⟩, hr'⟩
    · exact .inr ⟨result, hfails, [], r, rest, rfl, fun b hb => absurd hb List.not_mem_nil, hresult⟩

theorem allAgree_of_all {recorded : List (Identifier × Digests)}
    (h : ∀ r ∈ recorded, Fares a d r (.ok true)) : a.allAgree d recorded = .ok true := by
  have hcheck := allAgree_append h []
  rwa [List.append_nil] at hcheck

theorem allAgree_of_decides {recorded : List (Identifier × Digests)} {result : Except Fault Bool}
    (hfails : result ≠ .ok true) (h : Decides a d recorded result) :
    a.allAgree d recorded = result := by
  obtain ⟨before, r, after, rfl, hbefore, hr⟩ := h
  rw [allAgree_append hbefore, allAgree_of_fails hr hfails]

/-- An artifact is valid when all recorded blobs are what was recorded. -/
theorem isValid_iff (hmetadata : a.metadata d = .ok m) :
    a.isValid d = .ok true ↔ ∀ r ∈ m.recorded, Fares a d r (.ok true) := by
  unfold isValid
  rw [hmetadata]
  refine ⟨fun h => ?_, allAgree_of_all⟩
  rcases all_or_decides a d m.recorded with hall | ⟨result, hfails, hdecides⟩
  · exact hall
  · exact absurd (allAgree_of_decides hfails hdecides ▸ h) hfails

/-- Any other result of a check is what is found of the first blob that is not what was recorded. -/
theorem isValid_eq_iff (hmetadata : a.metadata d = .ok m) {result : Except Fault Bool}
    (hfails : result ≠ .ok true) : a.isValid d = result ↔ Decides a d m.recorded result := by
  unfold isValid
  rw [hmetadata]
  refine ⟨?_, allAgree_of_decides hfails⟩
  rintro rfl
  rcases all_or_decides a d m.recorded with hall | ⟨result, hfails', hdecides⟩
  · exact absurd (allAgree_of_all hall) hfails
  · simp only [allAgree_of_decides hfails' hdecides]
    exact hdecides

/-! ### Data files -/

/-- The name of the blob leads to this file. -/
def LeadsTo (a : Artifact) (d : Disk) (blob : Identifier) (file : Path) (contents : Bytes) :
    Prop :=
  ∃ executable, d.resolveIn a.directory blob.fileName = .ok (.entry file (.file contents executable))

/-- The path is that of the data file of a blob, or of a link by which its name leads there. -/
def IsDataFile (a : Artifact) (d : Disk) (blob : Identifier) (path : Path) : Prop :=
  path = a.blobPath blob ∨ ∃ contents, a.LeadsTo d blob path contents

/-- What is not a file is not read as an archive. -/
theorem file_of_read {found : Entry} {digests : Digests}
    (h : Digests.ofSource (sourceOf found) = .ok digests) :
    ∃ contents executable, found = .file contents executable ∧
      Digests.ofArchive contents = .ok digests := by
  have hbroken (message : String) : Digests.ofSource ⟨[], .broken message⟩ =
      .error (.archive (Archive.Fault.source message).message) := by
    unfold Digests.ofSource Archive.readSource
    rw [Archive.readFrom.eq_def, dif_pos rfl]
  cases found with
  | file contents executable => exact ⟨contents, executable, rfl, h⟩
  | directory serial =>
    rw [sourceOf, hbroken] at h
    · cases h
    · exact fun contents executable hc => by cases hc
  | link target =>
    rw [sourceOf, hbroken] at h
    · cases h
    · exact fun contents executable hc => by cases hc

/-- The name of a blob that is what was recorded leads to a file. -/
theorem Fares.leadsTo (h : Fares a d r (.ok true)) :
    fileName r.1 = .ok r.1.fileName ∧ ∃ file contents, a.LeadsTo d r.1 file contents ∧
      Digests.ofArchive contents = .ok r.2 := by
  cases h with
  | intact hname hopen hread =>
    obtain ⟨rfl, -⟩ := fileName_spec hname
    refine ⟨hname, ?_⟩
    unfold openIn at hopen
    split at hopen
    · rename_i file found hresolve
      cases hopen
      obtain ⟨contents, executable, rfl, hdigests⟩ := file_of_read hread
      exact ⟨file, contents, ⟨executable, hresolve⟩, hdigests⟩
    · cases hopen
    · cases hopen

/-- An archive is what was recorded when it has the recorded digests. -/
theorem fares_of_leadsTo (hname : fileName r.1 = .ok r.1.fileName) {file : Path} {contents : Bytes}
    (hfile : a.LeadsTo d r.1 file contents) {actual : Digests}
    (hread : Digests.ofArchive contents = .ok actual) :
    Fares a d r (.ok (decide (actual = r.2))) := by
  obtain ⟨executable, hresolve⟩ := hfile
  have hopen : d.openIn a.directory r.1.fileName = .ok (.of contents) := by
    unfold openIn
    rw [hresolve]
    rfl
  by_cases hsame : actual = r.2
  · rw [decide_eq_true hsame]
    exact .intact hname hopen (hsame ▸ hread)
  · rw [decide_eq_false hsame]
    exact .altered hname hopen hread hsame

theorem fares_of_free (hname : fileName r.1 = .ok r.1.fileName) {path : Path}
    (hresolve : d.resolveIn a.directory r.1.fileName = .ok (.free path)) :
    Fares a d r (.ok false) := by
  refine .missing hname ?_
  unfold openIn
  rw [hresolve]

/-- Without a failure, an artifact with a blob that is missing or altered is found invalid. -/
theorem decides_false {recorded : List (Identifier × Digests)}
    (h : ∀ r ∈ recorded, Fares a d r (.ok true) ∨ Fares a d r (.ok false))
    (hr : r ∈ recorded) (hfails : Fares a d r (.ok false)) : Decides a d recorded (.ok false) := by
  rcases all_or_decides a d recorded with hall | ⟨result, hne, before, b, after, rfl, hbefore, hb⟩
  · cases (hall r hr).unique hfails
  · refine ⟨before, b, after, rfl, hbefore, ?_⟩
    rcases h b (List.mem_append_right _ List.mem_cons_self) with htrue | hfalse
    · exact absurd (hb.unique htrue) hne
    · exact hfalse

theorem IsDataFile.eq_or {blob : Identifier} {path file : Path} {contents : Bytes}
    {executable : Bool} (hpath : a.IsDataFile d blob path)
    (hfile : d.resolveIn a.directory blob.fileName =
      .ok (.entry file (.file contents executable))) :
    path = file ∨ path = a.directory.entry blob.fileName := by
  rcases hpath with rfl | ⟨contents', executable', hsame⟩
  · exact .inr rfl
  · rw [hfile] at hsame
    exact .inl (Place.entry.inj (Except.ok.inj hsame)).1.symm

/-- Without links, a name leads to its own entry. -/
theorem leadsTo_of_keeps {blob : Identifier} {contents : Bytes} (hsound : a.Sound d)
    (hadmits : Admits blob) (h : a.Keeps blob contents d) :
    a.LeadsTo d blob (a.blobPath blob) contents := by
  obtain ⟨executable, hentry⟩ := h
  refine ⟨executable, ?_⟩
  change d.get? (a.directory.entry blob.fileName) = _ at hentry
  rw [resolveIn_plain hadmits.plain hsound hadmits.fits, hentry]
  rfl

/-- Without links, the record is not kept in a data file. -/
theorem resolveIn_apart {blob : Identifier} (hsound : a.Sound d) (h : a.HasRecord m d)
    (hadmits : Admits blob) :
    d.resolveIn a.directory metadataFile ≠ d.resolveIn a.directory blob.fileName := by
  obtain ⟨executable, hentry⟩ := h
  change d.get? (a.directory.entry metadataFile) = _ at hentry
  rw [resolveIn_plain plain_metadataFile hsound fits_metadataFile, hentry,
    resolveIn_plain hadmits.plain hsound hadmits.fits]
  intro hc
  cases hfound : d.get? (a.directory.entry blob.fileName) with
  | none =>
    rw [hfound] at hc
    cases hc
  | some found =>
    rw [hfound] at hc
    exact metadataPath_ne_blobPath a blob (Place.entry.inj (Except.ok.inj hc)).1

/-- A record that is read is in a file. -/
theorem resolveIn_of_metadata (h : a.metadata d = .ok m) : ∃ file contents executable,
    d.resolveIn a.directory metadataFile = .ok (.entry file (.file contents executable)) := by
  unfold metadata readTextIn at h
  cases hresolve : d.resolveIn a.directory metadataFile with
  | error fault =>
    rw [hresolve] at h
    cases fault <;> cases h
  | ok place =>
    rw [hresolve] at h
    cases place with
    | free path => cases h
    | entry file found =>
      cases found with
      | file contents executable => exact ⟨file, contents, executable, rfl⟩
      | directory serial => cases h
      | link target => cases h

section Replaced

variable {path : Path} {found : Option Entry}

/-- The data file of a blob that was what was recorded is what has taken its place. -/
theorem resolveIn_dataFile (hvalid : Fares a d r (.ok true)) (hpath : a.IsDataFile d r.1 path)
    (hreplaces : Replaces d d' path found) (hfound : NoMoreThanFile found) :
    d'.resolveIn a.directory r.1.fileName = .ok (placeAt path found) := by
  obtain ⟨hname, file, contents, ⟨executable, hfile⟩, -⟩ := hvalid.leadsTo
  obtain ⟨-, hplain⟩ := fileName_spec hname
  exact resolveIn_replaced hplain hfile (hpath.eq_or hfile) hfound hreplaces

/-- The record is read as before when it is not kept in the data file. -/
theorem metadata_replaces (hvalid : Fares a d r (.ok true)) (hpath : a.IsDataFile d r.1 path)
    (hreplaces : Replaces d d' path found) (hfound : NoMoreThanFile found)
    (hmetadata : a.metadata d = .ok m)
    (hapart : d.resolveIn a.directory metadataFile ≠ d.resolveIn a.directory r.1.fileName) :
    a.metadata d' = .ok m := by
  obtain ⟨hname, file, contents, ⟨executable, hfile⟩, -⟩ := hvalid.leadsTo
  obtain ⟨-, hplain⟩ := fileName_spec hname
  obtain ⟨file', contents', executable', hrecord⟩ := resolveIn_of_metadata hmetadata
  rcases resolveIn_replaces hplain hfile (hpath.eq_or hfile) hfound hreplaces hrecord with
    hsame | ⟨hshared, -⟩
  · unfold metadata readTextIn at hmetadata ⊢
    rwa [hsame]
  · exact absurd hshared hapart

/-- Any other blob is what was recorded, or its name led to the data file that was replaced. -/
theorem fares_replaces (hvalid : Fares a d r (.ok true)) (hpath : a.IsDataFile d r.1 path)
    (hreplaces : Replaces d d' path found) (hfound : NoMoreThanFile found)
    {b : Identifier × Digests} (hb : Fares a d b (.ok true)) :
    Fares a d' b (.ok true) ∨
      b.2 = r.2 ∧ d'.resolveIn a.directory b.1.fileName = .ok (placeAt path found) := by
  obtain ⟨hname, file, contents, ⟨executable, hfile⟩, hdigests⟩ := hvalid.leadsTo
  obtain ⟨-, hplain⟩ := fileName_spec hname
  obtain ⟨hname', file', contents', ⟨executable', hfile'⟩, hdigests'⟩ := hb.leadsTo
  rcases resolveIn_replaces hplain hfile (hpath.eq_or hfile) hfound hreplaces hfile' with
    hsame | ⟨hshared, hnew⟩
  · left
    have hfares := fares_of_leadsTo (d := d') hname' ⟨executable', hsame.trans hfile'⟩ hdigests'
    rwa [decide_eq_true rfl] at hfares
  · right
    -- Both names led to the same file, so the same was recorded of both.
    rw [hfile', hfile] at hshared
    obtain ⟨-, hentry⟩ := Place.entry.inj (Except.ok.inj hshared)
    obtain ⟨rfl, -⟩ := Entry.file.inj hentry
    exact ⟨Except.ok.inj (hdigests'.symm.trans hdigests), hnew⟩

/-- A valid artifact in which one data file was replaced by another archive is valid as long as
    this has the recorded digests. -/
theorem isValid_replaced (hmetadata : a.metadata d = .ok m) (hvalid : a.isValid d = .ok true)
    (hr : r ∈ m.recorded) (hpath : a.IsDataFile d r.1 path)
    (hapart : d.resolveIn a.directory metadataFile ≠ d.resolveIn a.directory r.1.fileName)
    {contents : Bytes} {executable : Bool} {digests : Digests}
    (hreplaces : Replaces d d' path (some (.file contents executable)))
    (hread : Digests.ofArchive contents = .ok digests) :
    a.isValid d' = .ok (decide (digests = r.2)) := by
  have hfares := (isValid_iff hmetadata).mp hvalid
  have hfound : NoMoreThanFile (some (.file contents executable)) :=
    fun entry hentry => ⟨contents, executable, (Option.some.inj hentry).symm⟩
  have hmetadata' := metadata_replaces (hfares r hr) hpath hreplaces hfound hmetadata hapart
  have hchanged {b : Identifier × Digests} (hb : b ∈ m.recorded)
      (hnew : d'.resolveIn a.directory b.1.fileName =
        .ok (placeAt path (some (.file contents executable)))) :
      Fares a d' b (.ok (decide (digests = b.2))) :=
    fares_of_leadsTo (hfares b hb).leadsTo.1 ⟨executable, hnew⟩ hread
  have hown := hchanged hr (resolveIn_dataFile (hfares r hr) hpath hreplaces hfound)
  -- Every record fares as before, or its archive is the one that was replaced too.
  by_cases hsame : digests = r.2
  · rw [decide_eq_true hsame, isValid_iff hmetadata']
    intro b hb
    rcases fares_replaces (hfares r hr) hpath hreplaces hfound (hfares b hb) with
      hkept | ⟨hshared, hnew⟩
    · exact hkept
    · have hb' := hchanged hb hnew
      rwa [decide_eq_true (hsame.trans hshared.symm)] at hb'
  · rw [decide_eq_false hsame] at hown ⊢
    rw [isValid_eq_iff hmetadata' (by decide)]
    refine decides_false (fun b hb => ?_) hr hown
    rcases fares_replaces (hfares r hr) hpath hreplaces hfound (hfares b hb) with
      hkept | ⟨hshared, hnew⟩
    · exact .inl hkept
    · have hb' := hchanged hb hnew
      rw [decide_eq_false (hshared ▸ hsame)] at hb'
      exact .inr hb'

/-- A valid artifact that has lost a data file is not valid. -/
theorem isValid_removed (hmetadata : a.metadata d = .ok m) (hvalid : a.isValid d = .ok true)
    (hr : r ∈ m.recorded) (hpath : a.IsDataFile d r.1 path)
    (hapart : d.resolveIn a.directory metadataFile ≠ d.resolveIn a.directory r.1.fileName)
    (hreplaces : Replaces d d' path none) : a.isValid d' = .ok false := by
  have hfares := (isValid_iff hmetadata).mp hvalid
  have hfound : NoMoreThanFile none := fun entry hentry => by cases hentry
  have hmetadata' := metadata_replaces (hfares r hr) hpath hreplaces hfound hmetadata hapart
  have hown := resolveIn_dataFile (hfares r hr) hpath hreplaces hfound
  rw [isValid_eq_iff hmetadata' (by decide)]
  refine decides_false (fun b hb => ?_) hr (fares_of_free (hfares r hr).leadsTo.1 hown)
  rcases fares_replaces (hfares r hr) hpath hreplaces hfound (hfares b hb) with
    hkept | ⟨-, hnew⟩
  · exact .inl hkept
  · exact .inr (fares_of_free (hfares b hb).leadsTo.1 hnew)

end Replaced

/-- What is written for a blob takes the place of its data file. -/
theorem createFile_replaces {blob : Identifier} {file : Path} {old : Bytes}
    (hfile : a.LeadsTo d blob file old) {handle : WriteHandle}
    (h : a.createFile blob d = .ok (handle, d')) (contents : Bytes) :
    ∃ executable,
      Replaces d (d'.write handle contents) file (some (.file contents executable)) := by
  obtain ⟨executable, hresolve⟩ := hfile
  have hentry : d.get? file = some (.file old executable) := resolveIn_right hresolve
  unfold createFile at h
  cases hname : fileName blob with
  | error fault =>
    rw [hname] at h
    cases h
  | ok name =>
    obtain ⟨rfl, -⟩ := fileName_spec hname
    rw [hname] at h
    have hcreate := ok_of_mapError h
    unfold createIn at hcreate
    rw [hresolve] at hcreate
    cases hcreate
    have hempty := set_stores (ne_nil_of_file hentry) (overwritable_of_file hentry) [] executable
    exact (hempty.write rfl contents).replaces

/-- A check says that an artifact is valid when every recorded blob is what was recorded. Otherwise
    it ends with what is found of the first one that is not. In a valid artifact whose record is
    not kept in the data file of a blob, another archive in the place of this file is valid exactly
    when it has the recorded digests, and without the file the artifact is not valid. -/
theorem isValid_exact (hmetadata : a.metadata d = .ok m) :
    (a.isValid d = .ok true ↔ ∀ r ∈ m.recorded, Fares a d r (.ok true)) ∧
    (∀ result, result ≠ .ok true →
      (a.isValid d = result ↔ Decides a d m.recorded result)) ∧
    (a.isValid d = .ok true → ∀ r ∈ m.recorded,
      d.resolveIn a.directory metadataFile ≠ d.resolveIn a.directory r.1.fileName →
      ∀ path d', a.IsDataFile d r.1 path →
        (∀ contents executable digests,
          Replaces d d' path (some (.file contents executable)) →
          Digests.ofArchive contents = .ok digests →
          a.isValid d' = .ok (decide (digests = r.2))) ∧
        (Replaces d d' path none → a.isValid d' = .ok false)) := by
  refine ⟨isValid_iff hmetadata, fun result => isValid_eq_iff hmetadata, ?_⟩
  intro hvalid r hr hapart path d' hpath
  exact ⟨fun contents executable digests => isValid_replaced hmetadata hvalid hr hpath hapart,
    isValid_removed hmetadata hvalid hr hpath hapart⟩

/-- A valid artifact with one archive, which is removed. -/
theorem isValid_exact_removed : ∃ (a : Artifact) (d : Disk), a.isValid d = .ok true ∧
    a.isValid (d.remove (a.blobPath (.named "a"))) = .ok false := by
  obtain ⟨a, d₀, hsound₀, hrecord₀, hnone⟩ := exists_record ⟨none, none, [], [⟨"a", .empty⟩]⟩
  have hadmits : Admits (.named "a") := ⟨by decide, by decide⟩
  obtain ⟨file, d₁, hcreate⟩ := createFile_ok hsound₀ hadmits fun entry hentry => by
    rw [hnone] at hentry
    cases hentry
  obtain ⟨-, hstores⟩ := createFile_stores hsound₀ hcreate
  have hsound := (hstores []).clean hsound₀
  obtain ⟨executable, hrecord⟩ := hrecord₀.of_stores (hstores [])
  obtain ⟨executable', harchive⟩ := keeps_of_stores (hstores [])
  have hmetadata := metadata_of_hasRecord hsound ⟨executable, hrecord⟩
  obtain ⟨hvalid, -, hchanged⟩ := isValid_exact hmetadata
  have hall : a.isValid (d₁.write file []) = .ok true := by
    rw [hvalid]
    intro r hr
    rw [List.mem_singleton.mp hr]
    exact fares_of_leadsTo hadmits.name (leadsTo_of_keeps hsound hadmits ⟨executable', harchive⟩)
      ofArchive_nil
  refine ⟨a, d₁.write file [], hall, ?_⟩
  obtain ⟨-, hremoved⟩ := hchanged hall (.named "a", .empty) List.mem_cons_self
    (resolveIn_apart hsound ⟨executable, hrecord⟩ hadmits) (a.blobPath (.named "a"))
    ((d₁.write file []).remove (a.blobPath (.named "a"))) (.inl rfl)
  exact hremoved (replaces_remove (Handle.entry_ne_nil _ _))

/-! ### A record that is an archive -/

/-- A time of start whose characters stand in the record where the header of a directory has its
    size, its sum and its type. -/
def headerStart : List Char :=
  '#' :: List.replicate 91 'x' ++ List.replicate 12 '0' ++ List.replicate 12 'x' ++
    "00156771".toList ++ '5' :: List.replicate 301 'x'

/-- A record of an archive without files, the text of which is such an archive. -/
def headerRecord : Metadata :=
  ⟨some (String.ofList headerStart), none, [], [⟨"a", .empty⟩]⟩

/-- A directory of an artifact, in which the record is a link to a data file. -/
def linkedRecord (contents : Bytes) : Disk where
  entries := [(["work"], .directory 1), (["work", "x"], .directory 2),
    (["work", "x", "a.tar"], .file contents false), (["work", "x", "metadata"], .link "a.tar")]
  workdir := ["work"]
  serial := 3

/-- The artifact of this directory. -/
def linkedArtifact : Artifact :=
  ⟨"x", ["work", "x"], 2⟩

theorem writeText_single {cs : List Char} {indent : Nat} (hline : cs.contains '\n' = false)
    (hplain : (Yaml.Traits.of cs).plain = false) (hsingle : (Yaml.Traits.of cs).single = true)
    (hchars : Yaml.singleChars indent false cs = cs) :
    Yaml.writeText indent (String.ofList cs) = '\'' :: cs ++ ['\'', '\n'] := by
  have hform : Yaml.Form.of (String.ofList cs) = .single := by
    unfold Yaml.Form.of
    simp only [String.toList_ofList, hline, hplain, hsingle, Bool.false_and, Bool.false_eq_true,
      if_false, if_true]
  unfold Yaml.writeText
  rw [hform]
  simp only [Yaml.Form.write, String.toList_ofList, hchars]
  simp

/-- The text of a record with a start and one blob. -/
theorem print_start (start : String) :
    (⟨some start, none, [], [⟨"a", .empty⟩]⟩ : Metadata).print.toList =
      "backup_activity:\n  start_time: ".toList ++ Yaml.writeText 4 start ++
        "instances: []\nblobs:\n- blob_name: a\n  checksums: \x7b\x7d\n".toList := by
  have hkeys : ∀ key ∈ ["backup_activity", "start_time", "instances", "blobs", "blob_name",
      "checksums"], Yaml.Form.of key = .plain ∧ Yaml.isSimpleKey key = true := by
    decide +kernel
  have hplain := fun key hkey => (hkeys key hkey).1
  have hsimple := fun key hkey => (hkeys key hkey).2
  have hname : Yaml.writeText 4 "a" = ['a', '\n'] := by decide +kernel
  unfold Metadata.print Yaml.print Metadata.layout
  rw [String.toList_ofList]
  simp [Yaml.writeBeside, Yaml.writeEntries, Yaml.writeValue, Yaml.writeItems, Yaml.Form.write,
    Yaml.spaces, Metadata.optionalField, Metadata.blobLayout, Metadata.digestsLayout,
    Digests.empty, hplain, hsimple, hname]

theorem dataless_headerRecord : Archive.Dataless (encode headerRecord.print) := by
  have hstart : Yaml.writeText 4 (String.ofList headerStart) =
      '\'' :: headerStart ++ ['\'', '\n'] :=
    writeText_single (by decide +kernel) (by decide +kernel) (by decide +kernel)
      (by decide +kernel)
  rw [encode, headerRecord, print_start, hstart]
  exact ⟨by decide +kernel, by decide +kernel, by decide +kernel, by decide +kernel⟩

theorem ofArchive_dataless {header : Bytes} (h : Archive.Dataless header) :
    Digests.ofArchive header = .ok .empty := by
  have hread : Archive.readFrom .clean {} (header ++ []) = _ := Archive.readFrom_dataless h .clean
  rw [List.append_nil, Archive.readFrom_nil] at hread
  unfold Digests.ofArchive Digests.ofSource Archive.readSource Source.of
  simp only [hread]
  rfl

/-- The name of the record and the name of the data file lead to the same file. -/
theorem resolveIn_linkedRecord (contents : Bytes) {name : String}
    (hname : name = metadataFile ∨ name = "a.tar") :
    (linkedRecord contents).resolveIn linkedArtifact.directory name =
      .ok (.entry ["work", "x", "a.tar"] (.file contents false)) := by
  have hopen : (linkedRecord contents).isOpen linkedArtifact.directory = true := by
    simp [linkedRecord, linkedArtifact, isOpen, get?, entryOf]
  have hfile : (linkedRecord contents).get? (["work", "x"] ++ ["a.tar"]) =
      some (.file contents false) := by
    simp [linkedRecord, get?, entryOf]
  have hlink : (linkedRecord contents).get? (["work", "x"] ++ ["metadata"]) =
      some (.link "a.tar") := by
    simp [linkedRecord, get?, entryOf]
  have htarget : PathText.of "a.tar" = ⟨false, ["a.tar"]⟩ := by decide
  rw [resolveIn_ok_iff]
  rcases hname with rfl | rfl
  · refine ⟨by decide, by decide, by decide, by decide, hopen, ?_⟩
    show (linkedRecord contents).walk _ _ (39 + 1) ["work", "x"]
      (PathText.of metadataFile).steps = _
    rw [plain_metadataFile.steps, metadataFile]
    rw [walk_relative (by decide) (by decide) (by decide) hlink (by decide) (by decide), htarget]
    exact walk_file (by decide) (by decide) (by decide) hfile
  · refine ⟨by decide, by decide, by decide, by decide, hopen, ?_⟩
    rw [htarget]
    exact walk_file (by decide) (by decide) (by decide) hfile

theorem metadata_linkedRecord (m : Metadata) :
    linkedArtifact.metadata (linkedRecord (encode m.print)) = .ok m := by
  unfold metadata readTextIn
  rw [resolveIn_linkedRecord _ (.inl rfl)]
  simp only [textOf, decode?_encode, Metadata.parse_print]
  rfl

/-- Without the data file, the link leads nowhere. -/
theorem isValid_linkedRecord_removed {contents : Bytes} {path : Path}
    (hpath : path = ["work", "x", "a.tar"]) :
    linkedArtifact.isValid ((linkedRecord contents).remove path) = .error .metadataMissing := by
  have hplain : PlainName "a.tar" := ⟨by decide, by decide, by decide, by decide⟩
  have hremoved :
      Replaces (linkedRecord contents) ((linkedRecord contents).remove path) path none :=
    replaces_remove (by simp [hpath])
  have hfree : ((linkedRecord contents).remove path).resolveIn linkedArtifact.directory
      metadataFile = .ok (.free path) := by
    rcases resolveIn_replaces hplain (resolveIn_linkedRecord contents (.inr rfl)) (.inl hpath)
      (fun entry hentry => by cases hentry) hremoved (resolveIn_linkedRecord contents (.inl rfl))
      with hsame | ⟨-, hnew⟩
    · have hright := resolveIn_right (hsame.trans (resolveIn_linkedRecord contents (.inl rfl)))
      rw [← hpath] at hright
      exact absurd (hremoved.here.symm.trans hright) (by simp)
    · exact hnew
  unfold isValid metadata readTextIn
  rw [hfree]

/-- A valid artifact whose record is kept in its only data file: without this file, a check does not
    find the artifact invalid but fails. -/
theorem isValid_of_linked_record :
    let d := linkedRecord (encode headerRecord.print)
    let path := linkedArtifact.blobPath (.named "a")
    linkedArtifact.metadata d = .ok headerRecord ∧
      headerRecord.recorded = [(.named "a", .empty)] ∧
      linkedArtifact.isValid d = .ok true ∧
      linkedArtifact.IsDataFile d (.named "a") path ∧
      Replaces d (d.remove path) path none ∧
      linkedArtifact.isValid (d.remove path) = .error .metadataMissing := by
  have hmetadata := metadata_linkedRecord headerRecord
  have hread := ofArchive_dataless dataless_headerRecord
  have hpath : linkedArtifact.blobPath (.named "a") = ["work", "x", "a.tar"] := by decide
  generalize encode headerRecord.print = contents at hmetadata hread
  intro d path
  refine ⟨hmetadata, rfl, ?_, .inl rfl, replaces_remove (Handle.entry_ne_nil _ _),
    isValid_linkedRecord_removed hpath⟩
  rw [isValid_iff hmetadata]
  intro r hr
  rw [List.mem_singleton.mp hr]
  have hfile := resolveIn_linkedRecord contents
    (.inr (by decide : (Identifier.named "a").fileName = _))
  exact fares_of_leadsTo (by decide) ⟨false, hfile⟩ hread

end DeploymentBackup.Artifact
