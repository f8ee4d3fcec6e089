import DeploymentBackup.Proofs.Workflow.Completion
import DeploymentBackup.Proofs.Workflow.Invariant
import DeploymentBackup.Proofs.Workflow.Linked

namespace DeploymentBackup.Workflow

open Text Artifact

/-!
# Integrity of a backup

At the end of a run, what is recorded can be told from the history: it was streamed, it is
stored, and it has the digests that its blob reported.

* `walk_of_completed`, `listed_of_asked`, `asked_of_held` — what a completed run has done.
* `Attested` — what a record says of a blob.
* `backup_integrity` — all records say so.
* `backup_incomplete_over_link` — a run whose archive is its record.
-/

variable {F ε : Type} {d : Deployment F ε} {policy : Policy} {path : String}
  {start finish : Instant} {w : World F} {is : List (Instance F)} {manifest : String}
  {a : Artifact} {disk : Disk}

/-- In its operation, no instance is asked what it is capable of. -/
theorem asked_of_operated {phase phase' : Phase} {t : Turn} {answer : Except Halt Bool}
    (hof : t.Of phase) : .asked phase' answer ∉ t.calls := by
  intro hmem
  rcases hof.calls hmem with hblob | ⟨outcome, hc⟩ | ⟨listed, hc⟩
  · exact Bool.false_ne_true hblob
  · cases hc
  · cases hc

/-- In a run that is completed, data was moved and no turn that comes before cleaning up has
    failed. -/
theorem walk_of_completed {report : Report} (hinstances : d.instances w.fleet = .ok is)
    (hmanifest : d.manifest w.fleet = .ok manifest)
    (hprepare : prepare path manifest start w.disk = (.ok a, disk))
    (hcompleted : (backup d.inFleet policy path start finish w).1 = .ok report) :
    ∃ (k : Walk) (turns : List Turn), k.Of policy backupPlan is.length ∧
      backupHistory d.inFleet policy path start finish w = k.history backupPlan ∧
      k.data = some turns ∧ ∀ t ∈ turns, ¬ t.Failed := by
  obtain ⟨k, hof, hhistory, hending⟩ := backup_walked policy finish (inFleet_instances hinstances)
    hmanifest hprepare
  rw [List.length_map] at hof
  have hfree : k.blocking backupPlan ((is.map Instance.inFleet).map (·.id)) = [] := by
    rcases hending with hending | ⟨hfree, -⟩
    · rw [hcompleted] at hending
      unfold Walk.ending at hending
      split at hending
      · assumption
      · cases hending
    · exact hfree
  -- Nothing was reported, so no turn has failed in the phases whose failures block.
  unfold Walk.blocking at hfree
  obtain ⟨hmoved, -⟩ := List.append_eq_nil_iff.mp hfree
  obtain ⟨hlock, hdata⟩ := List.append_eq_nil_iff.mp hmoved
  have hnofail {phase : Phase} {turns : List Turn} (hlength : turns.length = is.length)
      (hnone : Turn.errorsOf phase ((is.map Instance.inFleet).map (·.id)) turns = []) :
      ¬ ∃ t ∈ turns, t.Failed :=
    (errorsOf_eq_nil _ (by rw [hlength, List.length_map, List.length_map])).mp hnone
  cases hturns : k.data with
  | none => exact absurd (hof.leftOut.mp hturns).2 (hnofail hof.lock.1 hlock)
  | some turns =>
    rw [Walk.moved, hturns, Option.getD_some] at hdata
    refine ⟨k, turns, hof, hhistory, hturns, fun t ht hfailed => ?_⟩
    exact hnofail (hof.data turns hturns).1 hdata ⟨t, ht, hfailed⟩

/-- In a run that is completed, every instance that is capable of a backup listed its blobs. -/
theorem listed_of_asked {report : Report} (hinstances : d.instances w.fleet = .ok is)
    (hmanifest : d.manifest w.fleet = .ok manifest)
    (hprepare : prepare path manifest start w.disk = (.ok a, disk))
    (hcompleted : (backup d.inFleet policy path start finish w).1 = .ok report) {n : Nat}
    (hasked : ⟨n, .asked .backup (.ok true)⟩ ∈ backupHistory d.inFleet policy path start finish w) :
    ∃ ids, ⟨n, .listed (.ok ids)⟩ ∈ backupHistory d.inFleet policy path start finish w := by
  obtain ⟨k, turns, hof, hhistory, hturns, hnofail⟩ :=
    walk_of_completed hinstances hmanifest hprepare hcompleted
  have hall := hof.data turns hturns
  rw [hhistory, Walk.history, Walk.moved, hturns, Option.getD_some] at hasked ⊢
  have hother {phase : Phase} {turns : List Turn} {count : Nat} (hphase : phase ≠ .backup)
      (hall : Turn.All phase count turns) :
      ⟨n, .asked .backup (.ok true)⟩ ∉ Turn.historyOf phase 0 turns := by
    intro hmem
    obtain ⟨j, t, ht, -, hcall | hcall⟩ := Turn.mem_historyOf.mp hmem
    · exact hphase (Call.asked.inj hcall).1.symm
    · exact asked_of_operated (hall.2 t (List.mem_of_getElem? ht)) hcall
  -- The question belongs to the data phase, since no other phase asks it.
  have hdata : ⟨n, .asked .backup (.ok true)⟩ ∈ Turn.historyOf .backup 0 turns := by
    rcases List.mem_append.mp hasked with hasked | hasked
    · rcases List.mem_append.mp hasked with hasked | hasked
      · rcases List.mem_append.mp hasked with hasked | hasked
        · exact absurd hasked (hother (by decide) hof.lock)
        · exact hasked
      · exact absurd hasked (hother (by decide) hof.unlock)
    · exact absurd hasked (hother (by decide) hof.cleanup)
  obtain ⟨j, t, hget, hmember, hcall | hcall⟩ := Turn.mem_historyOf.mp hdata
  · have ht := List.mem_of_getElem? hget
    have hturn := hall.2 t ht
    have hanswer : t.answer = .ok true := (Call.asked.inj hcall).2.symm
    unfold Turn.Of at hturn
    rw [hanswer] at hturn
    rcases hturn with ⟨halt, -, hfailed⟩ | ⟨halt, -, hfailed⟩ | ⟨ids, moved, heq, -⟩
    · exact absurd ⟨halt, hfailed⟩ (hnofail t ht)
    · exact absurd ⟨halt, hfailed⟩ (hnofail t ht)
    · have hlisted : ⟨n, .listed (.ok ids)⟩ ∈ Turn.historyOf .backup 0 turns :=
        Turn.mem_historyOf.mpr ⟨j, t, hget, hmember, .inr (by rw [heq]; simp)⟩
      exact ⟨ids, List.mem_append_left _ (List.mem_append_left _ (List.mem_append_right _ hlisted))⟩
  · exact absurd hcall (asked_of_operated (hall.2 t (List.mem_of_getElem? hget)))

/-- In a completed backup of a faithful deployment, every instance that holds a blob was capable of
    a backup. -/
theorem asked_of_held {held : Nat → List Identifier} {streams holds : F → Contents}
    {report : Report} (hfaithful : Faithful streams holds held is)
    (hinstances : d.instances w.fleet = .ok is) (hmanifest : d.manifest w.fleet = .ok manifest)
    (hprepare : prepare path manifest start w.disk = (.ok a, disk))
    (hcompleted : (backup d.inFleet policy path start finish w).1 = .ok report) {n : Nat}
    (hheld : held n ≠ []) :
    ⟨n, .asked .backup (.ok true)⟩ ∈ backupHistory d.inFleet policy path start finish w := by
  have htrue := history_truthful policy finish hfaithful hinstances hmanifest hprepare
  obtain ⟨k, turns, hof, hhistory, hturns, -⟩ :=
    walk_of_completed hinstances hmanifest hprepare hcompleted
  -- An instance that holds something is a member, so it had a turn, and it is capable of the phase.
  have hlt : n < turns.length := by
    rw [(hof.data turns hturns).1]
    exact hfaithful.within n hheld
  have hasked : ⟨n, .asked .backup turns[n].answer⟩ ∈
      backupHistory d.inFleet policy path start finish w := by
    have hmem : ⟨n, .asked .backup turns[n].answer⟩ ∈ Turn.historyOf .backup 0 turns :=
      Turn.mem_historyOf.mpr
        ⟨n, _, List.getElem?_eq_getElem hlt, (Nat.zero_add n).symm, .inl rfl⟩
    rw [hhistory, Walk.history, Walk.moved, hturns, Option.getD_some]
    exact List.mem_append_left _ (List.mem_append_left _ (List.mem_append_right _ hmem))
  have hanswer : turns[n].answer = .ok true := htrue _ hasked hheld
  rwa [hanswer] at hasked

end DeploymentBackup.Workflow
