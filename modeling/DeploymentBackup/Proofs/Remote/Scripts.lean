import DeploymentBackup.Proofs.Remote.Lookup
import DeploymentBackup.Rehearsal.Script

namespace DeploymentBackup

/-!
# Scripts of a phase

In a phase a host runs the script of each job that has it, in ascending order of the jobs. Locks,
backups and restores end at the first script that fails. Unlocking goes on behind a failure, so that
no job stays locked because of another one, and reports the first failure in the end.

* `Phase.unlocks` — the phases in which every job has its turn.
* `Remote.RunsScript` — a command runs a script of a job.
* `Remote.Host.act_eq_runAll`, `Remote.Host.act_eq_runUntilFailure` — the two kinds of phases.
* `Remote.Host.act_scripts` — which scripts a phase runs, and how it ends.
-/

/-- A phase that removes locks. -/
def Phase.unlocks : Phase → Bool
  | .postBackupUnlock | .postRestoreUnlock => true
  | _ => false

namespace Remote

/-- The text of a command that runs a script of a job. -/
def RunsScript (l : Layout) (s : Script) (job : Job) (command : String) : Prop :=
  ∃ path, job.script? s = some path ∧ command = (Command.script l job s path).render

namespace Host

variable {W : Type} {h : Host W} {phase : Phase} {s : Script}

/-- There is one command for each job that has the script, in the order of the jobs. -/
theorem forall₂_commands (h : Host W) (s : Script) (jobs : List Job) :
    List.Forall₂ (RunsScript h.layout s) (jobs.filter (·.has s))
      ((h.commands s jobs).map Command.render) := by
  induction jobs with
  | nil => exact .nil
  | cons job rest ih =>
    cases hpath : job.script? s with
    | none =>
      have hhas : ¬ job.has s = true := by simp [Job.has, hpath]
      rw [List.filter_cons, if_neg hhas, commands, List.filterMap_cons_none (by rw [hpath]; rfl)]
      exact ih
    | some path =>
      have hhas : job.has s = true := by simp [Job.has, hpath]
      rw [List.filter_cons, if_pos hhas, commands, List.filterMap_cons_some (by rw [hpath]; rfl)]
      exact .cons ⟨path, hpath, rfl⟩ ih

theorem act_eq_runAll (hs : Script.ofPhase? phase = some s) (hunlocks : phase.unlocks = true) :
    h.act phase = h.jobs >>= fun jobs => runAll h.runner (h.commands s jobs) := by
  cases phase <;> cases hunlocks <;> cases hs <;> rfl

theorem act_eq_runUntilFailure (hs : Script.ofPhase? phase = some s)
    (hunlocks : phase.unlocks = false) :
    h.act phase = h.jobs >>= fun jobs => runUntilFailure h.runner (h.commands s jobs) := by
  cases phase <;> cases hunlocks <;> cases hs <;> rfl

/-- A phase issues the commands of scripts after those that look the jobs up. The scripts are those
    of the jobs that have them, in ascending order of the jobs: of all of them when locks are
    removed, and otherwise of those up to the first failure. The first failure is the outcome. -/
theorem act_scripts (hs : Script.ofPhase? phase = some s) {jobs : List Job}
    (hfound : h.Finds jobs) {w after : W} (hjobs : h.jobs w = (.ok jobs, after)) :
    ∃ (looked issued : List Issued) (ran left : List Job),
      Act.Issues h.noting.jobs h.jobs w looked ∧
      Act.Issues (h.noting.act phase) (h.act phase) w (looked ++ issued) ∧
      jobs.filter (·.has s) = ran ++ left ∧
      ((ran ++ left).map (·.name)).Pairwise (· < ·) ∧
      List.Forall₂ (RunsScript h.layout s) ran (issued.map (·.command)) ∧
      (phase.unlocks = true → left = []) ∧
      (phase.unlocks = false →
        (∀ i ∈ issued.dropLast, i.failure? = none) ∧
        (left ≠ [] → ∃ i, issued.getLast? = some i ∧ i.failure? ≠ none)) ∧
      (h.act phase w).1 = (outcomeOf issued).mapError .fault ∧
      ((h.act phase w).1 = .ok () ↔ ∀ i ∈ issued, i.failure? = none) := by
  obtain ⟨looked, hlooked⟩ := issues_jobs h w
  have hascending : ((jobs.filter (·.has s)).map (·.name)).Pairwise (· < ·) :=
    hfound.ascending.sublist (List.filter_sublist.map _)
  have hok (issued : List Issued) :
      (outcomeOf issued).mapError Halt.fault = .ok () ↔ ∀ i ∈ issued, i.failure? = none := by
    rw [← outcomeOf_eq_ok_iff]
    cases outcomeOf issued with
    | ok _ => exact iff_of_true rfl rfl
    | error cause => exact iff_of_false nofun nofun
  cases hunlocks : phase.unlocks with
  | true =>
    obtain ⟨issued, hcommands, hissues, houtcome⟩ :=
      issues_runAll h.runner (h.commands s jobs) after
    have hend : (h.act phase w).1 = (outcomeOf issued).mapError .fault := by
      rw [act_eq_runAll hs hunlocks, Act.bind_apply, hjobs]
      exact houtcome
    refine ⟨looked, issued, jobs.filter (·.has s), [], hlooked, ?_, (List.append_nil _).symm, ?_,
      ?_, fun _ => rfl, nofun, hend, hend ▸ hok issued⟩
    · rw [act_eq_runAll hs hunlocks, act_eq_runAll hs hunlocks]
      exact hlooked.bind_ok hjobs hissues
    · rw [List.append_nil]
      exact hascending
    · rw [hcommands]
      exact forall₂_commands h s jobs
  | false =>
    obtain ⟨issued, ran, left, hsplit, hcommands, hissues, houtcome, hdone, hleft⟩ :=
      issues_runUntilFailure h.runner (h.commands s jobs) after
    -- The commands end somewhere in the list of jobs, and the jobs are cut there.
    obtain ⟨front, back, hcut, hfront, hback⟩ := List.filterMap_eq_append_iff.mp hsplit
    have hend : (h.act phase w).1 = (outcomeOf issued).mapError .fault := by
      rw [act_eq_runUntilFailure hs hunlocks, Act.bind_apply, hjobs]
      exact houtcome
    have hfilter : jobs.filter (·.has s) = front.filter (·.has s) ++ back.filter (·.has s) := by
      rw [hcut, List.filter_append]
    refine ⟨looked, issued, front.filter (·.has s), back.filter (·.has s), hlooked, ?_, hfilter, ?_,
      ?_, nofun, fun _ => ⟨hdone, fun hmore => hleft ?_⟩, hend, hend ▸ hok issued⟩
    · rw [act_eq_runUntilFailure hs hunlocks, act_eq_runUntilFailure hs hunlocks]
      exact hlooked.bind_ok hjobs hissues
    · rw [← hfilter]
      exact hascending
    · rw [hcommands, ← hfront]
      exact forall₂_commands h s front
    · intro hnil
      have hrest := forall₂_commands h s back
      rw [commands, hback, hnil, List.map_nil, List.forall₂_nil_right_iff] at hrest
      exact hmore hrest

/-- Two jobs are unlocked: the script of the first one fails, and the second one is unlocked all the
    same. -/
theorem act_scripts_two :
    let h := Rehearsal.Script.host (.indexed "redis" "0") ⟨"/jobs", "/data"⟩
    let jobs : List Job :=
      [⟨"a", [(.postBackupUnlock, "/jobs/a/bin/bbr/post-backup-unlock")], none⟩,
        ⟨"b", [(.postBackupUnlock, "/jobs/b/bin/bbr/post-backup-unlock")], none⟩]
    let w : Rehearsal.Script := ⟨[.ok ⟨⟨1, []⟩, []⟩, .ok ⟨⟨0, []⟩, []⟩], [], some jobs⟩
    Script.ofPhase? .postBackupUnlock = some .postBackupUnlock ∧ h.Finds jobs ∧
      h.jobs w = (.ok jobs, w) ∧ ∃ looked issued : List Issued,
        Act.Issues (h.noting.act .postBackupUnlock) (h.act .postBackupUnlock) w
          (looked ++ issued) ∧
        List.Forall₂ (RunsScript h.layout .postBackupUnlock) jobs (issued.map (·.command)) ∧
        ¬ ∀ i ∈ issued, i.failure? = none := by
  intro h jobs w
  have hfound : h.Finds jobs :=
    .intro (w := .of [.ok ⟨⟨0, []⟩, Text.encode
      "/jobs/b/bin/bbr/post-backup-unlock\n/jobs/a/bin/bbr/post-backup-unlock\n"⟩])
      (by decide +kernel)
  have hphase : Script.ofPhase? .postBackupUnlock = some .postBackupUnlock := rfl
  have hall : jobs.filter (·.has .postBackupUnlock) = jobs := by decide +kernel
  have hfails : (h.act .postBackupUnlock w).1 ≠ .ok () := by
    have hvalue : (h.act .postBackupUnlock w).1.toOption = none := by decide +kernel
    intro hok
    rw [hok] at hvalue
    cases hvalue
  obtain ⟨looked, issued, ran, left, -, hissues, hsplit, -, hscripts, hleft, -, -, hok⟩ :=
    act_scripts (h := h) hphase hfound (w := w) rfl
  rw [hall, hleft rfl, List.append_nil] at hsplit
  exact ⟨hphase, hfound, rfl, looked, issued, hissues, hsplit ▸ hscripts,
    fun hall => hfails (hok.mpr hall)⟩

end Host

end Remote

end DeploymentBackup
