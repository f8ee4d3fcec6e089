import DeploymentBackup.Proofs.Remote.Discovery
import DeploymentBackup.Rehearsal.Script

namespace DeploymentBackup.Remote

open Text

/-!
# Where the data of jobs is kept

A script that moves data finds the directory for it in a variable, and the blobs of an instance are
directories too. The two are made separately, and they fit: the directory of each job lies in the
directory of one blob, and of no other.

* `Reaches` — a directory, or a path below it.
* `Command.values` — what a command gives to a variable.
* `Host.carrier`, `Host.places` — the blob that carries the data of a job, and all blobs.
* `reaches_carrier_iff` — the directory of a job lies in the blob that carries it only.
* `blobs_carry` — the blobs of an instance.
-/

/-- A path is a directory, or lies below it. -/
def Reaches (path directory : String) : Prop :=
  path = directory ∨ ∃ rest, path = directory ++ "/" ++ rest

/-- The value that a piece of a command gives to the variable of a name. -/
def Piece.value? (name : String) : Piece → Option String
  | .assignment given value => if given = name then some value else none
  | _ => none

/-- The values that a command gives to the variable of a name. -/
def Command.values (c : Command) (name : String) : List String :=
  c.filterMap (Piece.value? name)

/-- A script that moves data is given the directory of its job, and no other value. -/
theorem values_script (l : Layout) (job : Job) {s : Script} (hmoves : s.movesData = true)
    (path : String) :
    (Command.script l job s path).values "ARTIFACT_DIRECTORY" = [job.directory l ++ "/"] := by
  rw [Command.script, if_pos hmoves]
  rfl

theorem Job.holdsData_iff {job : Job} :
    job.holdsData = true ↔ ∃ s path, s.movesData = true ∧ job.script? s = some path := by
  simp only [Job.holdsData, Job.has, Bool.or_eq_true, Option.isSome_iff_exists]
  constructor
  · rintro (⟨path, hpath⟩ | ⟨path, hpath⟩)
    · exact ⟨.backup, path, rfl, hpath⟩
    · exact ⟨.restore, path, rfl, hpath⟩
  · rintro ⟨s, path, hmoves, hpath⟩
    cases s with
    | backup => exact .inl ⟨path, hpath⟩
    | restore => exact .inr ⟨path, hpath⟩
    | _ => cases hmoves

namespace Host

variable {W : Type} {h : Host W} {jobs : List Job}

/-- The blob that carries the data of a job, with the directory of the blob: the shared blob of the
    job, or the blob of the instance. -/
def carrier (h : Host W) (job : Job) : Identifier × String :=
  match job.backupName with
  | some name => (.named name, h.layout.namedDirectory name)
  | none => (h.id, h.layout.instanceDirectory)

/-- The blobs that jobs have, with their directories: the one of the instance if some job needs it,
    and the shared ones. -/
def places (h : Host W) (jobs : List Job) : List (Identifier × String) :=
  (if ∃ job ∈ jobs, job.holdsData = true ∧ job.backupName = none then
      [(h.id, h.layout.instanceDirectory)] else []) ++
    (sharedNames jobs).map fun name => (.named name, h.layout.namedDirectory name)

theorem mem_sharedNames {name : String} :
    name ∈ sharedNames jobs ↔ ∃ job ∈ jobs, job.holdsData = true ∧ job.backupName = some name := by
  simp [sharedNames, and_assoc]

/-- A blob that is there carries the data of some job. -/
theorem mem_places {place : Identifier × String} :
    place ∈ h.places jobs ↔ ∃ job ∈ jobs, job.holdsData = true ∧ place = h.carrier job := by
  rw [places, List.mem_append, List.mem_map]
  constructor
  · rintro (hplace | ⟨name, hname, rfl⟩)
    · split at hplace
      · rename_i hown
        obtain ⟨job, hjob, hdata, hnone⟩ := hown
        exact ⟨job, hjob, hdata, by rw [List.mem_singleton.mp hplace, carrier, hnone]⟩
      · cases hplace
    · obtain ⟨job, hjob, hdata, hshared⟩ := mem_sharedNames.mp hname
      exact ⟨job, hjob, hdata, by rw [carrier, hshared]⟩
  · rintro ⟨job, hjob, hdata, rfl⟩
    rw [carrier]
    cases hshared : job.backupName with
    | none =>
      rw [if_pos ⟨job, hjob, hdata, hshared⟩]
      exact .inl List.mem_cons_self
    | some name => exact .inr ⟨name, mem_sharedNames.mpr ⟨job, hjob, hdata, hshared⟩, rfl⟩

/-- The blobs of an instance are in the places that its jobs need. -/
theorem blobs_eq {w w' : W} (hjobs : h.jobs w = (.ok jobs, w')) :
    h.blobs w = (.ok ((h.places jobs).map fun place => blobAt h.runner place.1 place.2), w') := by
  have hown : (jobs.any fun j => j.holdsData && j.backupName.isNone) = true ↔
      ∃ job ∈ jobs, job.holdsData = true ∧ job.backupName = none := by
    simp
  rw [blobs, Act.bind_apply, hjobs]
  simp only [Act.pure_apply, hown, places, List.map_append, List.map_map]
  split <;> rfl

/-- The identifier of an instance is none of shared data, and shared blobs differ in their names. -/
theorem nodup_places (hid : h.id.isNamed = false) : ((h.places jobs).map (·.1)).Nodup := by
  rw [places, List.map_append, List.map_map, List.nodup_append]
  refine ⟨?_, ?_, ?_⟩
  · split <;> simp
  · exact (nodup_ascending _).map fun a b hab => congrArg Identifier.name hab
  · -- An instance has an index, and shared data has none.
    intro id hown other hother hsame
    obtain ⟨name, -, rfl⟩ := List.mem_map.mp hother
    have hown : id = h.id := by
      split at hown
      · simpa using hown
      · cases hown
    rw [← hown, hsame] at hid
    cases hid

/-! ### Directories -/

/-- What reaches into a directory reaches into the one above it. -/
theorem reaches_above {path directory name : String}
    (h : Reaches path (directory ++ "/" ++ name)) : Reaches path directory := by
  rcases h with rfl | ⟨rest, rfl⟩
  · exact .inr ⟨name, rfl⟩
  · exact .inr ⟨name ++ "/" ++ rest, by simp only [String.append_assoc]⟩

/-- A path into one directory reaches only into that one of the directories beside it. -/
theorem eq_of_reaches {root name more other : String} (hname : '/' ∉ name.toList)
    (hother : '/' ∉ other.toList)
    (hreaches : Reaches (root ++ name ++ "/" ++ more) (root ++ other)) : name = other := by
  -- Behind the root, the name ends at the first slash on both sides.
  rcases hreaches with hpath | ⟨rest, hpath⟩
  · have hchars := congrArg String.toList hpath
    simp only [String.toList_append, List.append_assoc, List.append_cancel_left_eq] at hchars
    have hslash : '/' ∈ other.toList := by
      rw [← hchars]
      simp
    exact absurd hslash hother
  · have hchars := congrArg String.toList hpath
    simp only [String.toList_append, List.append_assoc, List.append_cancel_left_eq] at hchars
    have hcut : some (name.toList, more.toList) = some (other.toList, rest.toList) := calc
      some (name.toList, more.toList) = cutAt '/' (name.toList ++ '/' :: more.toList) :=
        (cutAt_append hname _).symm
      _ = cutAt '/' (other.toList ++ '/' :: rest.toList) := congrArg (cutAt '/') hchars
      _ = some (other.toList, rest.toList) := cutAt_append hother _
    exact String.toList_inj.mp (Prod.mk.inj (Option.some.inj hcut)).1

theorem instanceDirectory_eq (l : Layout) :
    l.instanceDirectory = withoutEndSlashes l.backupRoot ++ "/" ++ "instance" := by
  show withoutEndSlashes _ ++ ("/" ++ "instance") = _
  exact String.append_assoc.symm

theorem namedDirectory_eq (l : Layout) (name : String) :
    l.namedDirectory name = withoutEndSlashes l.backupRoot ++ "/" ++ "named" ++ "/" ++ name := by
  show withoutEndSlashes _ ++ ("/" ++ "named" ++ "/") ++ name = _
  simp only [String.append_assoc]

/-- The directory of a job lies in the directory of the blob that carries its data, and in no
    other one. -/
theorem reaches_carrier_iff (hid : h.id.isNamed = false) {job other : Job}
    (hjob : ∀ name, job.backupName = some name → '/' ∉ name.toList)
    (hother : ∀ name, other.backupName = some name → '/' ∉ name.toList) :
    Reaches (job.directory h.layout ++ "/") (h.carrier other).2 ↔
      h.carrier other = h.carrier job := by
  have hdifferent (name : String) : Identifier.named name ≠ h.id := by
    intro hsame
    rw [← hsame] at hid
    cases hid
  have hinstance : '/' ∉ "instance".toList := by decide
  have hnamed : '/' ∉ "named".toList := by decide
  have hne : "instance" ≠ "named" := by decide
  -- Both directories lie in the root, so they are told apart by the parts behind it: the kind, and
  -- then the name of a shared blob.
  cases hj : job.backupName with
  | none =>
    cases ho : other.backupName with
    | none =>
      simp only [Job.directory, carrier, hj, ho, iff_true]
      exact .inr ⟨job.name ++ "/", by simp only [String.append_assoc]⟩
    | some name =>
      simp only [Job.directory, carrier, hj, ho]
      constructor
      · intro hreaches
        simp only [instanceDirectory_eq, namedDirectory_eq] at hreaches
        rw [String.append_assoc] at hreaches
        exact absurd (eq_of_reaches hinstance hnamed (reaches_above hreaches)) hne
      · intro hsame
        exact absurd (Prod.mk.inj hsame).1 (hdifferent name)
  | some name =>
    cases ho : other.backupName with
    | none =>
      simp only [Job.directory, carrier, hj, ho]
      constructor
      · intro hreaches
        simp only [instanceDirectory_eq, namedDirectory_eq] at hreaches
        rw [String.append_assoc] at hreaches
        exact absurd (eq_of_reaches hnamed hinstance hreaches) hne.symm
      · intro hsame
        exact absurd (Prod.mk.inj hsame).1.symm (hdifferent name)
    | some name' =>
      simp only [Job.directory, carrier, hj, ho]
      constructor
      · intro hreaches
        simp only [namedDirectory_eq] at hreaches
        -- The directory of a shared blob ends with its name.
        rw [← String.append_empty (s := _ ++ "/")] at hreaches
        rw [eq_of_reaches (hjob name hj) (hother name' ho) hreaches]
      · intro hsame
        rw [(Prod.mk.inj hsame).2]
        exact .inr ⟨"", String.append_empty.symm⟩

/-- Jobs that are found, and whose shared blobs have names of archives, have their data in blobs
    that differ: the one of the instance when some job with data has no shared blob, and then one
    for each shared blob of such jobs, in ascending order. The directory that a script is given
    reaches into the directory of one of them, that of the job, and there is none without such a
    job. -/
theorem blobs_carry (hid : h.id.isNamed = false) (hfound : h.Finds jobs)
    (hnames : ∀ job ∈ jobs, ∀ name, job.backupName = some name → '/' ∉ name.toList) {w w' : W}
    (hjobs : h.jobs w = (.ok jobs, w')) :
    ∃ places : List (Identifier × String),
      h.blobs w = (.ok (places.map fun place => blobAt h.runner place.1 place.2), w') ∧
      (places.map (·.1)).Nodup ∧
      (∃ names : List String, names.Pairwise (· < ·) ∧
        (∀ name, name ∈ names ↔
          ∃ job ∈ jobs, job.holdsData = true ∧ job.backupName = some name) ∧
        (∀ name ∈ names, blank name = false) ∧
        places = (if ∃ job ∈ jobs, job.holdsData = true ∧ job.backupName = none then
            [(h.id, h.layout.instanceDirectory)] else []) ++
          names.map fun name => (.named name, h.layout.namedDirectory name)) ∧
      (∀ job ∈ jobs, ∀ s path, s.movesData = true → job.script? s = some path → ∃ value,
        (Command.script h.layout job s path).values "ARTIFACT_DIRECTORY" = [value] ∧
        h.carrier job ∈ places ∧
        ∀ place ∈ places, Reaches value place.2 ↔ place = h.carrier job) ∧
      ∀ place ∈ places, ∃ job ∈ jobs, ∃ s path, s.movesData = true ∧
        job.script? s = some path ∧ place = h.carrier job := by
  refine ⟨h.places jobs, blobs_eq hjobs, nodup_places hid,
    ⟨sharedNames jobs, pairwise_ascending _, fun name => mem_sharedNames, ?_, rfl⟩, ?_, ?_⟩
  · intro name hname
    obtain ⟨job, hjob, -, hshared⟩ := mem_sharedNames.mp hname
    exact hfound.shared hjob hshared
  · intro job hjob s path hmoves hpath
    have hdata := Job.holdsData_iff.mpr ⟨s, path, hmoves, hpath⟩
    refine ⟨_, values_script h.layout job hmoves path, mem_places.mpr ⟨job, hjob, hdata, rfl⟩, ?_⟩
    intro place hplace
    obtain ⟨other, hother, -, rfl⟩ := mem_places.mp hplace
    exact reaches_carrier_iff hid (hnames job hjob) (hnames other hother)
  · intro place hplace
    obtain ⟨job, hjob, hdata, rfl⟩ := mem_places.mp hplace
    obtain ⟨s, path, hmoves, hpath⟩ := Job.holdsData_iff.mp hdata
    exact ⟨job, hjob, s, path, hmoves, hpath, rfl⟩

/-- One job with data of the instance, and one whose data is shared and is restored only: each has
    its blob. -/
theorem blobs_carry_two :
    let h := Rehearsal.Script.host (.indexed "redis" "0") ⟨"/jobs", "/data/"⟩
    let own : Job := ⟨"a", [(.backup, "/jobs/a/bin/bbr/backup")], none⟩
    let shared : Job := ⟨"b", [(.restore, "/jobs/b/bin/bbr/restore"),
      (.metadata, "/jobs/b/bin/bbr/metadata")], some "x"⟩
    h.id.isNamed = false ∧ h.Finds [own, shared] ∧
      (∀ job ∈ [own, shared], ∀ name, job.backupName = some name → '/' ∉ name.toList) ∧
      ∃ (w : Rehearsal.Script) (places : List (Identifier × String)),
        h.jobs w = (.ok [own, shared], w) ∧
        h.blobs w = (.ok (places.map fun place => blobAt h.runner place.1 place.2), w) ∧
        (places.map (·.1)).Nodup ∧ (.indexed "redis" "0", "/data/instance") ∈ places ∧
        (.named "x", "/data/named/x") ∈ places := by
  intro h own shared
  let printed (text : String) : Rehearsal.Response := .ok ⟨⟨0, []⟩, encode text⟩
  have hfound : h.Finds [own, shared] :=
    .intro (w := .of [
      printed "/jobs/b/bin/bbr/restore\n/jobs/b/bin/bbr/metadata\n/jobs/a/bin/bbr/backup\n",
      printed "backup_name: x\n"]) (by decide +kernel)
  have hnames : ∀ job ∈ [own, shared], ∀ name, job.backupName = some name → '/' ∉ name.toList := by
    simp [own, shared]
  let w : Rehearsal.Script := ⟨[], [], some [own, shared]⟩
  obtain ⟨places, hblobs, hnodup, -, hcarried, -⟩ :=
    blobs_carry (h := h) (w := w) rfl hfound hnames rfl
  have hcarriers : h.carrier own = (.indexed "redis" "0", "/data/instance") ∧
      h.carrier shared = (.named "x", "/data/named/x") := by decide +kernel
  obtain ⟨-, -, hown, -⟩ := hcarried own (by simp) .backup "/jobs/a/bin/bbr/backup" rfl rfl
  obtain ⟨-, -, hshared, -⟩ := hcarried shared (by simp) .restore "/jobs/b/bin/bbr/restore" rfl rfl
  exact ⟨rfl, hfound, hnames, w, places, rfl, hblobs, hnodup, hcarriers.1 ▸ hown,
    hcarriers.2 ▸ hshared⟩

end Host

end DeploymentBackup.Remote
