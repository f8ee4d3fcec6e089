import DeploymentBackup.Proofs.Workflow.Equations

namespace DeploymentBackup

/-!
# What every step keeps

A workflow is made of calls of instances and blobs, of changes of the disk and of claims. A
relation between worlds that holds of each such step, of no step and of two steps together
holds of the workflow.

* `Keeping` — a relation of this kind.
* `Act.Steps`, `Blob.Steps`, `Instance.Steps` — actions and members whose steps are in it.
* `steps_sweep`, `steps_drive` — the phases.
* `sweep_own_of`, `drive_free`, `drive_blocked` — phases and runs in which nothing fails, or
  something does.
* `steps_backUp`, `steps_uploadAll` — what is done in the data phases.
-/

variable {W F α β : Type}

/-- A relation that holds of no step and of two steps together. -/
structure Keeping (R : W → W → Prop) : Prop where
  refl : ∀ w, R w w
  trans : ∀ {w w' w''}, R w w' → R w' w'' → R w w''

/-! ### Actions -/

/-- What an action does to the world is in the relation. -/
def Act.Steps (R : W → W → Prop) (x : Act W α) : Prop :=
  ∀ w, R w (x w).2

namespace Act

variable {R : W → W → Prop}

theorem steps_pure (hR : Keeping R) (a : α) : Steps R (Pure.pure a : Act W α) :=
  fun w => hR.refl w

theorem steps_fail (hR : Keeping R) (cause : Instance.Fault) :
    Steps R (Act.fail cause : Act W α) :=
  fun w => hR.refl w

theorem Steps.bind (hR : Keeping R) {x : Act W α} (h : Steps R x) {y : α → Act W β}
    (h' : ∀ a, Steps R (y a)) : Steps R (x >>= y) := by
  intro w
  have hfirst := h w
  rw [bind_apply]
  rcases hx : x w with ⟨halt | a, after⟩ <;> rw [hx] at hfirst
  · exact hfirst
  · exact hR.trans hfirst (h' a after)

/-- The second action has to be in the relation for the values of the first one only. -/
theorem Steps.bind_of (hR : Keeping R) {x : Act W α} (h : Steps R x) {y : α → Act W β}
    (h' : ∀ w a, (x w).1 = .ok a → Steps R (y a)) : Steps R (x >>= y) := by
  intro w
  have hfirst := h w
  rw [bind_apply]
  rcases hx : x w with ⟨halt | a, after⟩ <;> rw [hx] at hfirst
  · exact hfirst
  · exact hR.trans hfirst (h' w a (by rw [hx]) after)

theorem Steps.attempt {x : Act W α} (h : Steps R x) : Steps R x.attempt := by
  intro w
  rw [attempt_eq]
  exact h w

theorem Steps.ite {x y : Act W α} {c : Prop} [Decidable c] (h : Steps R x) (h' : Steps R y) :
    Steps R (if c then x else y) := by
  split
  · exact h
  · exact h'

end Act

open Act (Steps)

/-! ### Members -/

/-- All that a blob does in a backup is in the relation. -/
structure Blob.Reads (R : W → W → Prop) (b : Blob W) : Prop where
  size : Act.Steps R b.size
  digests : Act.Steps R b.digests
  fetch : ∀ w, R w (b.fetch .unlimited w).2

/-- All that a blob does is in the relation. -/
structure Blob.Steps (R : W → W → Prop) (b : Blob W) : Prop extends Blob.Reads R b where
  replace : ∀ source, Act.Steps R (b.replace source)

/-- All that an instance does is in the relation. -/
structure Instance.Steps (R : W → W → Prop) (i : Instance W) : Prop where
  capable : ∀ phase, Act.Steps R (i.capable phase)
  act : ∀ phase, Act.Steps R (i.act phase)
  blobs : Act.Steps R i.blobs

/-! ### Phases -/

namespace Workflow

section Phases

variable {R : W → W → Prop} {operation : Instance W → Act W Unit}

theorem steps_visit (hR : Keeping R) {phase : Phase} {i : Instance W}
    (hcapable : Steps R (i.capable phase)) (hoperation : Steps R (operation i)) (w : W) :
    R w (phase.visit operation i w).2 := by
  have hturn : Steps R (phase.turn operation i) := by
    unfold Phase.turn
    exact hcapable.bind hR fun _ => hoperation.ite (Act.steps_pure hR ())
  rw [Phase.visit_eq]
  exact hturn w

theorem steps_sweep (hR : Keeping R) {phase : Phase} {is : List (Instance W)}
    (hcapable : ∀ i ∈ is, Steps R (i.capable phase)) (hoperation : ∀ i ∈ is, Steps R (operation i))
    (w : W) : R w (phase.sweep operation is w).2 := by
  induction is generalizing w with
  | nil => exact hR.refl w
  | cons i rest ih =>
    rw [Phase.sweep_cons]
    have hvisit := steps_visit hR (hcapable i List.mem_cons_self)
      (hoperation i List.mem_cons_self) w
    refine hR.trans hvisit (ih ?_ ?_ _)
    · intro i' hi'
      exact hcapable i' (List.mem_cons_of_mem _ hi')
    · intro i' hi'
      exact hoperation i' (List.mem_cons_of_mem _ hi')

/-- When all instances answer, and fail to act in no phase but to clean up, the turns of the
    other phases do not fail. -/
theorem sweep_own_of (hR : Keeping R) {phase : Phase} {is : List (Instance W)}
    (hanswers : ∀ i ∈ is, ∀ w, ∃ able w', i.capable phase w = (.ok able, w') ∧ R w w')
    (hacts : ∀ i ∈ is, ∀ w, ∃ outcome w', i.act phase w = (outcome, w') ∧
      (phase ≠ .cleanup → outcome = .ok ()) ∧ R w w') (w : W) :
    ∃ errors w', phase.sweep phase.own is w = (errors, w') ∧
      (phase ≠ .cleanup → errors = []) ∧ R w w' := by
  induction is generalizing w with
  | nil => exact ⟨[], w, rfl, fun _ => rfl, hR.refl w⟩
  | cons i rest ih =>
    obtain ⟨able, w₁, hanswer, hfirst⟩ := hanswers i List.mem_cons_self w
    -- An instance that is not capable of the phase is left alone.
    obtain ⟨outcome, w₂, hturn, hok, hacted⟩ : ∃ outcome w₂,
        (if able then phase.own i else pure ()) w₁ = (outcome, w₂) ∧
        (phase ≠ .cleanup → outcome = .ok ()) ∧ R w₁ w₂ := by
      cases able with
      | true => exact hacts i List.mem_cons_self w₁
      | false => exact ⟨.ok (), w₁, rfl, fun _ => rfl, hR.refl w₁⟩
    obtain ⟨first, hvisit, hnone⟩ : ∃ first,
        phase.visit phase.own i w = (first, w₂) ∧ (phase ≠ .cleanup → first = []) := by
      unfold Phase.visit Phase.turn
      rw [bind_of_ok hanswer, hturn]
      cases outcome with
      | ok _ => exact ⟨[], rfl, fun _ => rfl⟩
      | error halt =>
        refine ⟨_, rfl, fun hphase => ?_⟩
        cases hok hphase
    obtain ⟨others, w₃, hsweep, hothers, hlast⟩ := ih
      (fun i' hi' => hanswers i' (List.mem_cons_of_mem _ hi'))
      (fun i' hi' => hacts i' (List.mem_cons_of_mem _ hi')) w₂
    refine ⟨first ++ others, w₃, ?_, ?_, hR.trans (hR.trans hfirst hacted) hlast⟩
    · rw [Phase.sweep_cons, hvisit, hsweep]
    · intro hphase
      rw [hnone hphase, hothers hphase]
      rfl

/-- When all instances could be locked, all phases are entered, and all failures are kept. -/
theorem drive_locked (policy : Policy) (plan : Plan) {is : List (Instance W)} {w w₁ w₂ : W}
    {errors : PhaseErrors} (hlock : plan.lock.sweep plan.lock.own is w = ([], w₁))
    (hdata : plan.data.sweep operation is w₁ = (errors, w₂)) :
    let unlocked := plan.unlock.sweep plan.unlock.own is w₂
    let cleaned := Phase.cleanup.sweep (Phase.own .cleanup) is unlocked.2
    drive policy plan operation is w =
      (⟨[.notStarted, .locking, plan.dataState, .unlocking, .cleanup],
        errors ++ unlocked.1 ++ cleaned.1⟩, cleaned.2) := by
  have hlocked : Progress.start.enter .locking plan.lock plan.lock.own is w =
      (⟨[.notStarted, .locking], []⟩, w₁) := by
    rw [enter_eq, hlock]
    rfl
  have hmoved : moved policy plan operation is (⟨[.notStarted, .locking], []⟩, w₁) =
      (⟨[.notStarted, .locking, plan.dataState], errors⟩, w₂) := by
    unfold moved
    rw [if_neg (by simp), enter_eq, hdata]
    rfl
  rw [drive_eq, hlocked]
  simp only [hmoved]
  rfl

/-- A run in which nothing fails but to clean up is not blocked. -/
theorem drive_free (policy : Policy) (plan : Plan) {is : List (Instance W)} {w w₁ w₂ w₃ : W}
    (hlock : plan.lock.sweep plan.lock.own is w = ([], w₁))
    (hdata : plan.data.sweep operation is w₁ = ([], w₂))
    (hunlock : plan.unlock.sweep plan.unlock.own is w₂ = ([], w₃)) :
    ∃ p, drive policy plan operation is w =
        (p, (Phase.cleanup.sweep (Phase.own .cleanup) is w₃).2) ∧
      p.isBlocked = false := by
  -- A failure in cleaning up is reported, but it does not block.
  have hnone : PhaseErrors.blocking (Phase.cleanup.sweep (Phase.own .cleanup) is w₃).1 = [] := by
    refine List.filter_eq_nil_iff.mpr fun e he => ?_
    rw [phase_of_mem_sweep he]
    decide
  have hdrive := drive_locked policy plan hlock hdata
  rw [hunlock] at hdrive
  refine ⟨_, hdrive, ?_⟩
  unfold Progress.isBlocked
  rw [List.nil_append, List.nil_append, hnone]
  rfl

theorem steps_enter_own (hR : Keeping R) (p : Progress) (state : State) (phase : Phase)
    {is : List (Instance W)} (h : ∀ i ∈ is, i.Steps R) (w : W) :
    R w (p.enter state phase phase.own is w).2 := by
  rw [enter_eq]
  exact steps_sweep hR (fun i hi => (h i hi).capable phase) (fun i hi => (h i hi).act phase) w

theorem steps_moved (hR : Keeping R) (policy : Policy) (plan : Plan) {is : List (Instance W)}
    (h : ∀ i ∈ is, i.Steps R) (hoperation : ∀ i ∈ is, Steps R (operation i))
    (locked : Progress × W) : R locked.2 (moved policy plan operation is locked).2 := by
  unfold moved
  split
  · exact hR.refl _
  · rw [enter_eq]
    exact steps_sweep hR (fun i hi => (h i hi).capable plan.data) hoperation locked.2

theorem steps_drive (hR : Keeping R) (policy : Policy) (plan : Plan) {is : List (Instance W)}
    (h : ∀ i ∈ is, i.Steps R) (hoperation : ∀ i ∈ is, Steps R (operation i)) (w : W) :
    R w (drive policy plan operation is w).2 := by
  rw [drive_eq]
  have hlock := steps_enter_own hR .start .locking plan.lock h w
  have hdata := steps_moved hR policy plan h hoperation
    (Progress.start.enter .locking plan.lock plan.lock.own is w)
  have hmoved := hR.trans hlock hdata
  simp only
  generalize moved policy plan operation is _ = moved at hmoved ⊢
  have hunlock := steps_enter_own hR moved.1 .unlocking plan.unlock h moved.2
  exact hR.trans (hR.trans hmoved hunlock) (steps_enter_own hR _ .cleanup .cleanup h _)

end Phases

/-! ### Inspections -/

theorem steps_inspectOne {R : World F → World F → Prop} (hR : Keeping R) {i : Instance (World F)}
    (hi : i.Steps R) : Act.Steps R (inspectOne i) := by
  rw [inspectOne_eq]
  refine hi.blobs.bind hR fun bs => ?_
  have hrestorable : Act.Steps R
      (if bs.isEmpty then pure false else i.capable .restore : Act _ Bool) :=
    (Act.steps_pure hR false).ite (hi.capable .restore)
  exact hrestorable.bind hR fun _ => Act.steps_pure hR _

theorem steps_inspectAll {R : World F → World F → Prop} (hR : Keeping R)
    {is : List (Instance (World F))} (h : ∀ i ∈ is, i.Steps R) (number : Nat) (w : World F) :
    R w (inspectAll number is w).2 := by
  induction is generalizing number w with
  | nil => exact hR.refl w
  | cons i rest ih =>
    rw [inspectAll_cons]
    have hfirst := steps_inspectOne hR (h i List.mem_cons_self) w
    exact hR.trans hfirst (ih (fun i' hi' => h i' (List.mem_cons_of_mem _ hi')) (number + 1) _)

/-! ### The data phases -/

/-- Changes of the disk and claims are in the relation, too. -/
structure Local (R : World F → World F → Prop) : Prop extends Keeping R where
  disk : ∀ (w : World F) disk, R w { w with disk := disk }
  claim : ∀ (w : World F) claimed, R w { w with claimed := claimed }

section Data

variable {R : World F → World F → Prop}

theorem steps_inspectDisk (hR : Keeping R) (f : Disk → Except Artifact.Fault α) :
    Steps R (inspectDisk f) := by
  intro w
  rw [inspectDisk_eq]
  exact hR.refl w

theorem steps_changeDisk (hR : Local R) (f : Disk → Except Artifact.Fault (α × Disk)) :
    Steps R (changeDisk f) := by
  intro w
  unfold changeDisk
  cases f w.disk with
  | ok changed => exact hR.disk w changed.2
  | error fault => exact hR.refl w

theorem steps_taking (hR : Local R) (shared : Identifier) : Steps R (taking shared) := by
  have hclaim : Steps R (claim shared) := by
    intro w
    unfold claim
    split
    · exact hR.refl w
    · exact hR.claim w _
  exact hclaim.ite (Act.steps_pure hR.toKeeping true)

theorem steps_store (hR : Local R) {b : Blob (World F)} (hb : b.Reads R) (file : Disk.WriteHandle) :
    Steps R (store b file) :=
  fun w => hR.trans (hb.fetch w) (hR.disk _ _)

theorem steps_transfer (hR : Local R) (a : Artifact) {b : Blob (World F)} (hb : b.Reads R) :
    Steps R (transfer a b) := by
  have hK := hR.toKeeping
  unfold transfer
  refine hb.size.attempt.bind hK fun _ => (steps_changeDisk hR _).bind hK fun file => ?_
  refine (steps_store hR hb file).bind hK fun _ => (steps_inspectDisk hK _).bind hK fun _ => ?_
  exact hb.digests.bind hK fun _ => (steps_changeDisk hR _).ite (Act.steps_fail hK _)

theorem steps_transferAll (hR : Local R) (a : Artifact) {bs : List (Blob (World F))}
    (hbs : ∀ b ∈ bs, b.Reads R) : Steps R (transferAll a bs) := by
  have hK := hR.toKeeping
  induction bs with
  | nil => exact Act.steps_pure hK ()
  | cons b rest ih =>
    rw [transferAll_cons]
    have hrest := ih fun b' hb' => hbs b' (List.mem_cons_of_mem _ hb')
    have htransfer := steps_transfer hR a (hbs b List.mem_cons_self)
    refine (steps_taking hR b.id).bind hK fun _ => ?_
    exact (htransfer.ite (Act.steps_pure hK ())).bind hK fun _ => hrest

theorem steps_backUp (hR : Local R) (a : Artifact) {i : Instance (World F)} (hi : i.Steps R)
    (hbs : ∀ w bs, (i.blobs w).1 = .ok bs → ∀ b ∈ bs, b.Reads R) : Steps R (backUp a i) := by
  have hK := hR.toKeeping
  unfold backUp
  refine (hi.act .backup).bind hK fun _ => hi.blobs.bind_of hK fun w bs hlisted => ?_
  exact steps_transferAll hR a (hbs w bs hlisted)

theorem steps_upload (hR : Keeping R) (a : Artifact) {b : Blob (World F)} (hb : b.Steps R) :
    Steps R (upload a b) := by
  unfold upload
  refine (steps_inspectDisk hR _).bind hR fun expected => ?_
  cases expected with
  | none => exact Act.steps_fail hR _
  | some expected =>
    refine (steps_inspectDisk hR _).bind hR fun source => (hb.replace source).bind hR fun _ => ?_
    exact hb.digests.bind hR fun _ => (Act.steps_pure hR ()).ite (Act.steps_fail hR _)

theorem steps_uploadAll (hR : Keeping R) (a : Artifact) {bs : List (Blob (World F))}
    (hbs : ∀ b ∈ bs, b.Steps R) : Steps R (uploadAll a bs) := by
  induction bs with
  | nil => exact Act.steps_pure hR ()
  | cons b rest ih =>
    unfold uploadAll
    have hrest := ih fun b' hb' => hbs b' (List.mem_cons_of_mem _ hb')
    exact (steps_upload hR a (hbs b List.mem_cons_self)).bind hR fun _ => hrest

end Data

end Workflow

end DeploymentBackup
