import DeploymentBackup.Proofs.Workflow.Linked
import DeploymentBackup.Proofs.Workflow.Visits

namespace DeploymentBackup.Workflow

open Text Artifact Disk

/-!
# Shared blobs in a backup

A shared blob is taken once in a run, by the first instance that comes to it, and all others pass
over it, whatever has become of it. It is recorded when this one transfer was confirmed.

* `RecordsShared` — what the record says of a shared blob.
* `visits_of_backup` — the visits of a run whose artifact could be made.
* `backup_shared` — all runs.
* `backup_over_link` — a record that a later blob has emptied.
-/

variable {F ε : Type}

/-- A shared blob has one record at most, with the digests that its visits have confirmed, and the
    visit that moves it fails exactly when it confirms nothing. -/
structure RecordsShared (shared : Identifier) (visits : List Visit) (m : Metadata) : Prop where
  once : m.blobs.countP (·.identifier = shared) ≤ 1
  recorded : ∀ digests, (∃ r ∈ m.blobs, r.identifier = shared ∧ r.digests = digests) ↔
    ∃ v ∈ visits, v.blob = shared ∧ Confirms v.calls digests
  outcome : ∀ calls outcome, .moved shared calls outcome ∈ visits →
    (outcome = .ok () ↔ ∃ digests, Confirms calls digests)

theorem mem_recorded_shared {m : Metadata} (hproper : m.Proper) {shared : Identifier}
    (hnamed : shared.isNamed = true) (digests : Digests) :
    (shared, digests) ∈ m.recorded ↔
      ∃ r ∈ m.blobs, r.identifier = shared ∧ r.digests = digests := by
  have hfiltered := (Metadata.filter_recorded hproper).2
  have hmem : (shared, digests) ∈ m.recorded ↔
      (shared, digests) ∈ m.recorded.filter (·.1.isNamed) := by
    simp [hnamed]
  rw [hmem, hfiltered, List.mem_map]
  simp only [Prod.mk.injEq]

theorem Records.ofShared {a : Artifact} {m : Metadata} {disk : Disk} {visits : List Visit}
    (h : Records visits m) (hbacked : Backed a m disk) {shared : Identifier}
    (hnamed : shared.isNamed = true) : RecordsShared shared visits m where
  once := by
    have hnodup : (m.blobs.map (·.identifier)).Nodup := by
      have honce := hbacked.once
      rw [Metadata.ids_eq] at honce
      exact honce.of_append_right
    have hcount := List.nodup_iff_count_le_one.mp hnodup shared
    rw [List.count, List.countP_map] at hcount
    exact hcount
  recorded := by
    intro digests
    rw [← mem_recorded_shared hbacked.proper hnamed]
    exact h.recorded shared digests hnamed
  outcome := fun calls outcome hmem => h.outcome shared calls outcome hmem hnamed

/-- Behind the data phase, nothing is moved. -/
theorem quiet_drive (policy : Policy) (plan : Plan)
    (moveData : Instance (World (F × History)) → Act (World (F × History)) Unit)
    (is : List (Instance F)) (w : World (F × History)) :
    Quiet (moved policy plan moveData (observedFrom 0 (is.map Instance.inFleet))
        (Progress.start.enter .locking plan.lock plan.lock.own
          (observedFrom 0 (is.map Instance.inFleet)) w)).2
      (drive policy plan moveData (observedFrom 0 (is.map Instance.inFleet)) w).2 := by
  rw [drive_eq]
  exact keeping_quiet.trans (quiet_enter_own _ .unlocking plan.unlock is _)
    (quiet_enter_own _ .cleanup .cleanup is _)

/-- Nothing is visited before the phases. -/
theorem tracked_first {path manifest : String} {start : Instant} {a : Artifact}
    {before : Disk} {w : World (F × History)} (hclaimed : w.claimed = [])
    (hprepare : prepare path manifest start before = (.ok a, w.disk)) :
    Tracked (a.HoldsNoLink w.disk) a [] w where
  claimed := by
    intro shared
    simp [hclaimed]
  once := fun shared hnamed => .inl (by simp)
  recorded := fun hlinks => ⟨firstRecord start, backed_of_prepare hprepare hlinks,
    ⟨fun shared digests hnamed => iff_of_false nofun (by simp), by simp⟩⟩

/-- The record of a run is that of its visits, and the finish. -/
theorem recorded_finished {a : Artifact} {m : Metadata} {visits : List Visit}
    {driven : Progress × World (F × History)} (hbacked : Backed a m driven.2.disk)
    (hrecords : Records visits m) (finish : Instant) (path : String) :
    ∃ m', Backed a m' (finished (ε := ε) a finish path driven).2.disk ∧ Records visits m' := by
  obtain ⟨disk, hfinish, hstores⟩ := addFinishTime_stores hbacked.sound hbacked.record finish
  refine ⟨{ m with finishTime := some finish.stamp }, ?_, ⟨hrecords.recorded, hrecords.outcome⟩⟩
  unfold finished
  rw [hfinish]
  exact hbacked.finished hstores

/-- The visits of a run whose artifact could be made. -/
theorem visits_of_backup {d : Deployment F ε} (policy : Policy) {path : String} {start : Instant}
    (finish : Instant) {w : World F} {is : List (Instance F)} {manifest : String} {a : Artifact}
    {disk : Disk} (hinstances : d.instances w.fleet = .ok is)
    (hmanifest : d.manifest w.fleet = .ok manifest)
    (hprepare : prepare path manifest start w.disk = (.ok a, disk)) :
    let run := backup d.inFleet policy path start finish w
    ∃ (k : Walk) (visits : List (List Visit)), k.Of policy backupPlan is.length ∧
      backupHistory d.inFleet policy path start finish w = k.history backupPlan ∧
      List.Forall₂ VisitsOf k.moved visits ∧
      (∀ report, run.1 = .ok report ∨ run.1 = .error (.failed report) →
        report.errors.filter (·.phase = .backup) =
          Turn.errorsOf .backup (is.map (·.id)) k.moved) ∧
      (∀ shared, shared.isNamed = true → TakenOnce shared visits.flatten) ∧
      (a.HoldsNoLink disk → ∃ m, Backed a m run.2.disk ∧ Records visits.flatten m) := by
  intro run
  obtain ⟨hresult, hworld⟩ := backup_observed d.inFleet policy path start finish w
  have hprepared : Tracked (a.HoldsNoLink disk) a []
      (World.mk disk [] (w.fleet, ([] : History))) :=
    tracked_first (w := World.mk disk [] (w.fleet, [])) rfl hprepare
  -- Locking visits nothing, so that the data phase starts as the run does.
  have hquiet := quiet_enter_own .start .locking backupPlan.lock is
    (World.mk disk [] (w.fleet, ([] : History)))
  have hlocked := hprepared.beside hquiet.disk hquiet.claimed
  obtain ⟨k, hof, ⟨visits, hvisits, htracked⟩, hprogress, hhistory⟩ := drive_walk_to policy
    (operates_backupPlan a).lock (operates_backupPlan a).unlock (sweep_visits is 0 hlocked)
    ⟨[], .nil, hlocked⟩
  rw [List.nil_append] at htracked
  rw [List.length_map] at hof
  have hend := quiet_drive policy backupPlan (backUp a) is (World.mk disk [] (w.fleet, []))
  have htracked := htracked.beside hend.disk hend.claimed
  rw [backup_eq (observed_instances_ok (inFleet_instances hinstances)) hmanifest hprepare]
    at hresult hworld
  change (finished a finish path (drive policy backupPlan (backUp a) (observedFrom 0
    (is.map Instance.inFleet)) (World.mk disk [] (w.fleet, ([] : History))))).1 = _ at hresult
  change (finished (ε := ε) a finish path (drive policy backupPlan (backUp a) (observedFrom 0
    (is.map Instance.inFleet)) (World.mk disk [] (w.fleet, ([] : History))))).2.seen = _ at hworld
  have hnoted : backupHistory d.inFleet policy path start finish w = k.history backupPlan := by
    unfold backupHistory
    rw [backup_eq (observed_instances_ok (inFleet_instances hinstances)) hmanifest hprepare,
      history_finished]
    exact hhistory
  generalize drive policy backupPlan (backUp a) (observedFrom 0 (is.map Instance.inFleet))
    (World.mk disk [] (w.fleet, ([] : History))) = driven at hprogress hresult hworld htracked
  refine ⟨k, visits, hof, hnoted, hvisits, ?_, htracked.once, ?_⟩
  · intro report hreport
    obtain ⟨p, after⟩ := driven
    obtain rfl : p = _ := hprogress
    have hids : (is.map Instance.inFleet).map (·.id) = is.map (·.id) := List.map_map
    have hending : run.1 = k.ending backupPlan (is.map (·.id)) path := by
      rw [hids] at hresult
      rcases finished_progressOf (ε := ε) a finish path (is.map (·.id)) k after with
        hending | ⟨-, fault, -, hfault⟩
      · exact hresult.symm.trans hending
      · rw [show run.1 = _ from hresult.symm.trans hfault] at hreport
        rcases hreport with hreport | hreport <;> cases hreport
    rw [hending] at hreport
    rw [errors_of_ending hreport]
    exact blocking_data backupPlan (by decide) (by decide) (is.map (·.id)) k
  · intro hlinks
    obtain ⟨m, hbacked, hrecords⟩ := htracked.recorded hlinks
    obtain ⟨m', hbacked', hrecords'⟩ :=
      recorded_finished (ε := ε) hbacked hrecords finish path
    refine ⟨m', ?_, hrecords'⟩
    rw [show run.2 = _ from hworld.symm, World.disk_seen]
    exact hbacked'

/-- A run whose artifact could not be made calls no instance. -/
theorem history_of_unprepared {d : Deployment F ε} {policy : Policy} {path : String}
    {start finish : Instant} {w : World F}
    (h : ∀ is manifest a disk, d.instances w.fleet = .ok is → d.manifest w.fleet = .ok manifest →
      prepare path manifest start w.disk ≠ (.ok a, disk)) :
    backupHistory d.inFleet policy path start finish w = [] := by
  unfold backupHistory
  cases hfleet : d.instances w.fleet with
  | error cause =>
    have hinstances : d.inFleet.instances w = .error cause := by
      show (d.instances w.fleet).map _ = _
      rw [hfleet]
      rfl
    unfold backup
    rw [observed_instances_error hinstances]
    rfl
  | ok is =>
    have hinstances := observed_instances_ok (inFleet_instances hfleet)
    cases hmanifest : d.manifest w.fleet with
    | error cause =>
      rw [backup_not_described hinstances hmanifest]
      rfl
    | ok manifest =>
      rcases hprepare : prepare path manifest start w.disk with ⟨fault | a, disk⟩
      · rw [backup_not_prepared hinstances hmanifest hprepare]
        rfl
      · exact absurd hprepare (h is manifest a disk hfleet hmanifest)

/-- In every run, a shared blob is taken once. A run that could not make its artifact calls no
    instance. Any other run goes through its data phase turn by turn and, in a turn, visit by visit:
    the instance has its own action and its list of blobs behind it, and no visit has failed that
    came before. The first visit of a shared blob moves it, with one stream at most, and all others
    pass over it, which never fails; so there is one turn at most that can fail because of this
    blob. What is reported of the data phase are the failures of its turns. If the artifact held no
    link when it was made, as it does where there was nothing before, the shared blob is recorded if
    and only if its one transfer was confirmed, and once. -/
theorem backup_shared (d : Deployment F ε) (policy : Policy) (path : String)
    (start finish : Instant) (w : World F) :
    let run := backup d.inFleet policy path start finish w
    let h := backupHistory d.inFleet policy path start finish w
    (h = [] ∧ ∀ is manifest a disk, d.instances w.fleet = .ok is →
      d.manifest w.fleet = .ok manifest → prepare path manifest start w.disk ≠ (.ok a, disk)) ∨
    ∃ (is : List (Instance F)) (manifest : String) (a : Artifact) (disk : Disk) (k : Walk)
        (visits : List (List Visit)),
      d.instances w.fleet = .ok is ∧ d.manifest w.fleet = .ok manifest ∧
      prepare path manifest start w.disk = (.ok a, disk) ∧
      k.Of policy backupPlan is.length ∧ h = k.history backupPlan ∧
      List.Forall₂ VisitsOf k.moved visits ∧
      (∀ report, run.1 = .ok report ∨ run.1 = .error (.failed report) →
        report.errors.filter (·.phase = .backup) =
          Turn.errorsOf .backup (is.map (·.id)) k.moved) ∧
      (∀ shared, shared.isNamed = true → TakenOnce shared visits.flatten ∧
        (callsFor shared visits.flatten).countP isFetch ≤ 1 ∧ MovedInOne shared visits) ∧
      (w.disk.Vacant a.directory.path → a.HoldsNoLink disk) ∧
      (a.HoldsNoLink disk → ∃ m, a.metadata run.2.disk = .ok m ∧
        ∀ shared, shared.isNamed = true → RecordsShared shared visits.flatten m) := by
  intro run h
  by_cases hprepared : ∃ is manifest a disk, d.instances w.fleet = .ok is ∧
      d.manifest w.fleet = .ok manifest ∧ prepare path manifest start w.disk = (.ok a, disk)
  · obtain ⟨is, manifest, a, disk, hinstances, hmanifest, hprepare⟩ := hprepared
    obtain ⟨k, visits, hof, hhistory, hvisits, hreports, honce, hrecorded⟩ :=
      visits_of_backup policy finish hinstances hmanifest hprepare
    have hshape : ∀ v ∈ visits.flatten, ∃ k, v.Of k := by
      intro v hv
      obtain ⟨own, hown, hv⟩ := List.mem_flatten.mp hv
      -- Visits belong to turns by their places.
      obtain ⟨j, hj, rfl⟩ := List.getElem_of_mem hown
      have hturn := (List.forall₂_iff_get.mp hvisits).2 j (hvisits.length_eq ▸ hj) hj
      exact hturn.shape v hv
    refine .inr ⟨is, manifest, a, disk, k, visits, hinstances, hmanifest, hprepare, hof, hhistory,
      hvisits, hreports, ?_, holdsNoLink_of_vacant hprepare, ?_⟩
    · intro shared hnamed
      have honce := honce shared hnamed
      exact ⟨honce, honce.fetches_le_one hshape, honce.movedInOne⟩
    · intro hlinks
      obtain ⟨m, hbacked, hrecords⟩ := hrecorded hlinks
      exact ⟨m, metadata_of_hasRecord hbacked.sound hbacked.record,
        fun shared hnamed => hrecords.ofShared hbacked hnamed⟩
  · have hunprepared (is : List (Instance F)) (manifest : String) (a : Artifact) (disk : Disk)
        (hinstances : d.instances w.fleet = .ok is) (hmanifest : d.manifest w.fleet = .ok manifest) :
        prepare path manifest start w.disk ≠ (.ok a, disk) := by
      intro hprepare
      exact hprepared ⟨is, manifest, a, disk, hinstances, hmanifest, hprepare⟩
    exact .inl ⟨history_of_unprepared hunprepared, hunprepared⟩

/-- A run over a link in the directory of its artifact: the instance holds two shared blobs. The
    first one is moved and confirmed and nothing fails, but in the end the second one alone is
    recorded, because its archive was the record. -/
theorem backup_over_link :
    let d := Deployment.kept [(.indexed "a" "0", [.named "n", .named "z"])]
    let w : World Contents := ⟨linkedStart, [], fun _ _ => []⟩
    let run := backup d.inFleet .failFast "d/a/.." ⟨0, false⟩ ⟨1, false⟩ w
    let h := backupHistory d.inFleet .failFast "d/a/.." ⟨0, false⟩ ⟨1, false⟩ w
    (∃ report, run.1 = .ok report) ∧
      ⟨0, .listed (.ok [.named "n", .named "z"])⟩ ∈ h ∧
      ⟨0, .fetched 0 [] (.ok ())⟩ ∈ h ∧ Digests.ofArchive [] = .ok .empty ∧
      ⟨0, .digested 0 (.ok .empty)⟩ ∈ h ∧
      ∃ m, detourArtifact.metadata run.2.disk = .ok m ∧
        m.blobs.map (·.identifier) = [.named "z"] := by
  intro d w run h
  let member : Keeper := ⟨0, .indexed "a" "0", [.named "n", .named "z"]⟩
  obtain ⟨hreport, -, hmetadata, htold⟩ := backup_linked (d := d) [member] rfl rfl
    (by decide) (by decide) .failFast ⟨0, false⟩ ⟨1, false⟩
  have hmember := htold 0 member rfl
  exact ⟨hreport, hmember.listed, hmember.fetched 0 (by decide), ofArchive_nil,
    hmember.digested 0 (by decide), _, hmetadata, by decide⟩

end DeploymentBackup.Workflow
