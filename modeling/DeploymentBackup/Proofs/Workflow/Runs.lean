import DeploymentBackup.Proofs.Artifact.Files
import DeploymentBackup.Proofs.Workflow.Fleet
import DeploymentBackup.Proofs.Workflow.Inspection

namespace DeploymentBackup.Workflow

/-!
# Runs that enter their phases

A backup whose artifact could be made, and a restore that was not refused, walk through all
their phases. What they report is the report of the walk.

* `backup_walked` — the history and the report of a backup.
* `restore_walked` — the history and the report of a restore.
-/

variable {F ε : Type}

/-- A backup that went through its phases ends with its report, unless nothing failed and the
    finish could not be recorded. -/
theorem finished_progressOf (a : Artifact) (finish : Instant) (path : String)
    (ids : List Identifier) (k : Walk) (w : World F) :
    (finished (ε := ε) a finish path (progressOf backupPlan ids k, w)).1 =
        k.ending backupPlan ids path ∨
      k.blocking backupPlan ids = [] ∧ ∃ fault,
        a.addFinishTime finish
          (finished (ε := ε) a finish path (progressOf backupPlan ids k, w)).2.disk =
          .error fault ∧
        (finished (ε := ε) a finish path (progressOf backupPlan ids k, w)).1 =
          .error (.artifact fault) := by
  have hending := finish_progressOf (ε := ε) blocks_backupPlan ids k path
  have hblocked := isBlocked_progressOf blocks_backupPlan ids k
  unfold finished
  simp only [hending]
  cases hfinish : a.addFinishTime finish w.disk with
  | ok disk => exact .inl rfl
  | error fault =>
    -- The failure to record the finish is reported only where no other failure is.
    by_cases h : k.blocking backupPlan ids = []
    · right
      have hfree : (progressOf backupPlan ids k).isBlocked = false :=
        Bool.eq_false_iff.mpr fun hc => hblocked.mp hc h
      simp only [hfree]
      exact ⟨h, fault, hfinish, rfl⟩
    · left
      simp only [hblocked.mpr h, if_true]

theorem history_finished (a : Artifact) (finish : Instant) (path : String)
    (driven : Progress × World (F × History)) :
    (finished (ε := ε) a finish path driven).2.history = driven.2.history := by
  unfold finished
  cases a.addFinishTime finish driven.2.disk <;> rfl

theorem backup_walked {d : Deployment (World F) ε} (policy : Policy) {path : String}
    {start : Instant} (finish : Instant) {w : World F} {is : List (Instance (World F))}
    {manifest : String} {a : Artifact} {disk : Disk} (hinstances : d.instances w = .ok is)
    (hmanifest : d.manifest w = .ok manifest)
    (hprepare : prepare path manifest start w.disk = (.ok a, disk)) :
    ∃ k : Walk, k.Of policy backupPlan is.length ∧
      backupHistory d policy path start finish w = k.history backupPlan ∧
      ((backup d policy path start finish w).1 = k.ending backupPlan (is.map (·.id)) path ∨
        k.blocking backupPlan (is.map (·.id)) = [] ∧ ∃ fault,
          a.addFinishTime finish (backup d policy path start finish w).2.disk = .error fault ∧
          (backup d policy path start finish w).1 = .error (.artifact fault)) := by
  obtain ⟨hresult, hworld⟩ := backup_observed d policy path start finish w
  obtain ⟨k, hof, hprogress, hhistory⟩ := drive_walk (operates_backupPlan a) is
    (World.noting { w with disk := disk, claimed := [] } [])
  unfold backupHistory
  rw [← hresult, ← hworld, World.disk_seen,
    backup_eq (observed_instances_ok hinstances) hmanifest hprepare]
  change (drive policy backupPlan (backUp a) (observedFrom 0 is)
    { w.noting [] with disk := disk, claimed := [] }).1 = _ at hprogress
  change (drive policy backupPlan (backUp a) (observedFrom 0 is)
    { w.noting [] with disk := disk, claimed := [] }).2.history = _ at hhistory
  -- From here on the run is what its walk says of it.
  generalize drive policy backupPlan (backUp a) (observedFrom 0 is)
    { w.noting [] with disk := disk, claimed := [] } = driven at hprogress hhistory ⊢
  obtain ⟨p, after⟩ := driven
  obtain rfl : p = _ := hprogress
  refine ⟨k, hof, ?_, finished_progressOf a finish path _ k after⟩
  rw [history_finished]
  exact hhistory

/-- The refusals of a restore are no reports. -/
theorem not_reports_inspect {is : List (Instance (World F))} {w : World F} {e : Error ε}
    (h : (inspect is w).1 = .error e) : ¬ Reports (.error e) := by
  rw [inspect_eq] at h
  refine not_reports_error ?_
  rintro report rfl
  simp only at h
  split at h <;> cases h

theorem not_reports_checkCompatibility {a : Artifact} {holdings : List Holding} {disk : Disk}
    {e : Error ε} (h : checkCompatibility a holdings disk = .error e) :
    ¬ Reports (.error e) := by
  unfold checkCompatibility at h
  refine not_reports_error ?_
  rintro report rfl
  simp only at h
  split at h <;> cases h

theorem not_reports_checkRestorable {holdings : List Holding} {e : Error ε}
    (h : checkRestorable holdings = .error e) : ¬ Reports (.error e) := by
  unfold checkRestorable at h
  refine not_reports_error ?_
  rintro report rfl
  simp only at h
  split at h <;> cases h

theorem restore_walked {d : Deployment (World F) ε} {policy : Policy} {path : String}
    {w : World F} (h : Reports (restore d policy path w).1) :
    ∃ (is : List (Instance (World F))) (vs : List Inspection) (k : Walk),
      d.instances w = .ok is ∧ vs.length = is.length ∧ (∀ v ∈ vs, v.Of) ∧
      k.Of policy restorePlan is.length ∧
      restoreHistory d policy path w = Inspection.historyOf 0 vs ++ k.history restorePlan ∧
      (restore d policy path w).1 = k.ending restorePlan (is.map (·.id)) path := by
  obtain ⟨hresult, -⟩ := restore_observed d policy path w
  unfold restoreHistory
  rw [← hresult] at h ⊢
  -- Every way that ends before the walk ends without a report.
  cases hinstances : d.instances w with
  | error cause =>
    rw [restore_not_found (observed_instances_error hinstances)] at h
    obtain ⟨report, h | h⟩ := h <;> cases h
  | ok is =>
    cases hopen : Artifact.openAt w.disk path with
    | error fault =>
      rw [restore_not_opened (observed_instances_ok hinstances) hopen] at h
      obtain ⟨report, h | h⟩ := h <;> cases h
    | ok a =>
      obtain ⟨vs, hlength, hof, -, hasked⟩ := inspectAll_answers is 1 0 (w.noting [])
      have hnoted : (inspect (ε := ε) (observedFrom 0 is) (w.noting [])).2.history =
          Inspection.historyOf 0 vs := by
        rw [inspect_eq]
        simpa using hasked
      rw [restore_eq (observed_instances_ok hinstances) hopen] at h ⊢
      simp only at h ⊢
      cases hinspect : (inspect (ε := ε) (observedFrom 0 is) (w.noting [])).1 with
      | error e =>
        rw [hinspect] at h
        exact absurd h (not_reports_inspect hinspect)
      | ok holdings =>
        rw [hinspect] at h
        generalize (inspect (ε := ε) (observedFrom 0 is) (w.noting [])).2 = answered at *
        simp only at h ⊢
        cases hcompatible : checkCompatibility (ε := ε) a holdings answered.disk with
        | error e =>
          rw [hcompatible] at h
          exact absurd h (not_reports_checkCompatibility hcompatible)
        | ok _ =>
          cases hrestorable : checkRestorable (ε := ε) holdings with
          | error e =>
            rw [hcompatible, hrestorable] at h
            exact absurd h (not_reports_checkRestorable hrestorable)
          | ok _ =>
            obtain ⟨k, hwalk, hprogress, hhistory⟩ :=
              drive_walk (operates_restorePlan a) is answered
            refine ⟨is, vs, k, rfl, hlength, hof, hwalk, ?_, ?_⟩
            · rw [← hnoted]
              exact hhistory
            · simp only [hprogress]
              exact finish_progressOf blocks_restorePlan _ k path

end DeploymentBackup.Workflow
