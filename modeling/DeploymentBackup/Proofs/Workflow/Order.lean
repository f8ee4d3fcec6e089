import DeploymentBackup.Proofs.Workflow.View
import Mathlib.Data.List.Perm.Basic

namespace DeploymentBackup.Workflow

/-!
# Instances in another order

When no instance sees what another one does, each has the turn that it would have alone. The order
of the turns is then seen by nobody: what an instance sees at the end is what it did itself, and
what a bystander sees is what there was at the beginning.

* `Member` — an instance, and what it sees of the world.
* `Company` — members who do not see one another, before a bystander who sees none of them.
* `sweep_alone` — everyone has the turn that it would have alone.
* `sweep_reordered`, `drive_reordered` — the turns and the phases in another order.
-/

/-- An instance, and what it sees of the world. -/
structure Member (W : Type) where
  self : Instance W
  view : View W

variable {W : Type} {moveData : Instance W → Act W Unit} {m : Member W} {u : View W}
  {ms ms' : List (Member W)} {w w' : W}

/-- All that the member does in a walk depends on what it sees, and cannot be seen in `u`. -/
structure Member.Walks (moveData : Instance W → Act W Unit) (m : Member W) (u : View W) : Prop where
  capable : ∀ phase, Confined m.view u (m.self.capable phase)
  act : ∀ phase, Confined m.view u (m.self.act phase)
  moves : Confined m.view u (moveData m.self)

/-- Neither member sees what the other one does. -/
def Member.Apart (moveData : Instance W → Act W Unit) (m m' : Member W) : Prop :=
  m.Walks moveData m'.view ∧ m'.Walks moveData m.view

/-- The members see nothing of each other, and the bystander `u` sees nothing of them. -/
structure Company (moveData : Instance W → Act W Unit) (u : View W) (ms : List (Member W)) :
    Prop where
  apart : ms.Pairwise (Member.Apart moveData)
  unseen : ∀ m ∈ ms, m.Walks moveData u

/-- All members see the same in both worlds, and so does the bystander. -/
structure AllAlike (u : View W) (ms : List (Member W)) (w w' : W) : Prop where
  members : ∀ m ∈ ms, m.view.alike w w'
  bystander : u.alike w w'

theorem AllAlike.trans {w'' : W} (h : AllAlike u ms w w') (h' : AllAlike u ms w' w'') :
    AllAlike u ms w w'' where
  members := fun m hm => m.view.trans (h.members m hm) (h'.members m hm)
  bystander := u.trans h.bystander h'.bystander

theorem AllAlike.symm (h : AllAlike u ms w w') : AllAlike u ms w' w where
  members := fun m hm => m.view.symm (h.members m hm)
  bystander := u.symm h.bystander

theorem AllAlike.perm (h : AllAlike u ms w w') (hperm : ms'.Perm ms) : AllAlike u ms' w w' where
  members := fun m hm => h.members m (hperm.mem_iff.mp hm)
  bystander := h.bystander

theorem Company.perm (h : Company moveData u ms) (hperm : ms'.Perm ms) :
    Company moveData u ms' where
  apart := (hperm.pairwise_iff fun h => And.symm h).mpr h.apart
  unseen := fun m hm => h.unseen m (hperm.mem_iff.mp hm)

theorem Company.tail (h : Company moveData u (m :: ms)) : Company moveData u ms where
  apart := (List.pairwise_cons.mp h.apart).2
  unseen := fun m' hm' => h.unseen m' (List.mem_cons_of_mem m hm')

/-- A member is a bystander of the others. -/
theorem Company.head (h : Company moveData u (m :: ms)) : Company moveData m.view ms where
  apart := h.tail.apart
  unseen := fun m' hm' => ((List.pairwise_cons.mp h.apart).1 m' hm').2

/-! ### Turns -/

theorem Member.Walks.own (h : m.Walks moveData u) (phase : Phase) :
    Confined m.view u (phase.visit phase.own m.self) :=
  (h.capable phase).visit (h.act phase)

theorem Member.Walks.data (h : m.Walks moveData u) (phase : Phase) :
    Confined m.view u (phase.visit moveData m.self) :=
  (h.capable phase).visit h.moves

section Turns

variable {phase : Phase} {operation : Instance W → Act W Unit}
  (hturn : ∀ {m : Member W} {u : View W}, m.Walks moveData u →
    Confined m.view u (phase.visit operation m.self))

include hturn

/-- The others do not see the turn of a member, nor does the bystander. -/
theorem turn_unseen (hcompany : Company moveData u (m :: ms)) (h : AllAlike u (m :: ms) w w) :
    AllAlike u ms w (phase.visit operation m.self w).2 where
  members := by
    intro m' hm'
    have hapart := (List.pairwise_cons.mp hcompany.apart).1 m' hm'
    exact (hturn hapart.1).spares (h.members m List.mem_cons_self)
      (h.members m' (List.mem_cons_of_mem m hm'))
  bystander :=
    (hturn (hcompany.unseen m List.mem_cons_self)).spares (h.members m List.mem_cons_self)
      h.bystander

/-- The bystander does not see a sweep. -/
theorem sweep_unseen (hcompany : Company moveData u ms) (h : AllAlike u ms w w) :
    u.alike w (phase.sweep operation (ms.map (·.self)) w).2 := by
  induction ms generalizing w with
  | nil => exact h.bystander
  | cons m rest ih =>
    -- The other turns are taken in the world that the first one leaves, which looks as before.
    have hafter := turn_unseen hturn hcompany h
    rw [List.map_cons, Phase.sweep_cons]
    exact u.trans hafter.bystander (ih hcompany.tail (hafter.symm.trans hafter))

/-- In a sweep, every member has the turn that it would have alone, and sees in the end what it
    would see behind it. -/
theorem sweep_alone (hcompany : Company moveData u ms) (h : AllAlike u ms w w) :
    (phase.sweep operation (ms.map (·.self)) w).1 =
        ms.flatMap (fun m => (phase.visit operation m.self w).1) ∧
      ∀ m ∈ ms, m.view.alike (phase.visit operation m.self w).2
        (phase.sweep operation (ms.map (·.self)) w).2 := by
  induction ms generalizing w with
  | nil => exact ⟨rfl, fun m hm => absurd hm List.not_mem_nil⟩
  | cons m rest ih =>
    have hafter := turn_unseen hturn hcompany h
    have hown := (hturn (hcompany.unseen m List.mem_cons_self)).own (h.members m List.mem_cons_self)
    -- Behind the first turn, the others have the turns that they would have in front of it.
    have hothers (m' : Member W) (hm' : m' ∈ rest) :=
      (hturn (hcompany.tail.unseen m' hm')).own (hafter.members m' hm')
    have hagain := hafter.symm.trans hafter
    obtain ⟨herrors, hviews⟩ := ih hcompany.tail hagain
    rw [List.map_cons, Phase.sweep_cons]
    constructor
    · show _ ++ _ = _
      rw [herrors, List.flatMap_cons]
      congr 1
      exact List.flatMap_congr fun m' hm' => (hothers m' hm').1
    · intro m' hm'
      rcases List.mem_cons.mp hm' with rfl | hm'
      · exact sweep_unseen hturn hcompany.head ⟨hagain.members, hown.2⟩
      · exact m'.view.trans (hothers m' hm').2 (hviews m' hm')

/-- Whatever the order of the turns is, the failures are the same up to their order, and everyone
    sees the same afterwards. -/
theorem sweep_reordered (hcompany : Company moveData u ms) (hperm : ms'.Perm ms)
    (h : AllAlike u ms w w') :
    (phase.sweep operation (ms'.map (·.self)) w').1.Perm
        (phase.sweep operation (ms.map (·.self)) w).1 ∧
      AllAlike u ms (phase.sweep operation (ms.map (·.self)) w).2
        (phase.sweep operation (ms'.map (·.self)) w').2 := by
  have hcompany' := hcompany.perm hperm
  have hleft := h.trans h.symm
  have hright := (h.symm.trans h).perm hperm
  obtain ⟨herrors, hviews⟩ := sweep_alone hturn hcompany hleft
  obtain ⟨herrors', hviews'⟩ := sweep_alone hturn hcompany' hright
  -- Each sweep is compared with the turns that the members would have alone; there the order does
  -- not occur any more, and a member has the same turn in both worlds.
  have hown (m : Member W) (hm : m ∈ ms) := (hturn (hcompany.unseen m hm)).own (h.members m hm)
  constructor
  · rw [herrors, herrors']
    refine hperm.flatMap fun m hm => ?_
    rw [(hown m (hperm.mem_iff.mp hm)).1]
  · refine ⟨fun m hm => ?_, ?_⟩
    · have hturns := m.view.trans (m.view.symm (hviews m hm)) (hown m hm).2
      exact m.view.trans hturns (hviews' m (hperm.mem_iff.mpr hm))
    · have hbefore := u.trans (u.symm (sweep_unseen hturn hcompany hleft)) h.bystander
      exact u.trans hbefore (sweep_unseen hturn hcompany' hright)

end Turns

/-! ### Phases -/

/-- Two walks have come to the same point: the failures differ in their order at most, and
    everyone sees the same. -/
structure Agree (u : View W) (ms : List (Member W)) (x x' : Progress × W) : Prop where
  transitions : x'.1.transitions = x.1.transitions
  errors : x'.1.errors.Perm x.1.errors
  worlds : AllAlike u ms x.2 x'.2

variable {x x' : Progress × W}

theorem Agree.enter {phase : Phase} {operation : Instance W → Act W Unit}
    (hturn : ∀ {m : Member W} {u : View W}, m.Walks moveData u →
      Confined m.view u (phase.visit operation m.self))
    (hcompany : Company moveData u ms) (hperm : ms'.Perm ms) (h : Agree u ms x x')
    (state : State) :
    Agree u ms (x.1.enter state phase operation (ms.map (·.self)) x.2)
      (x'.1.enter state phase operation (ms'.map (·.self)) x'.2) := by
  obtain ⟨herrors, hworlds⟩ := sweep_reordered hturn hcompany hperm h.worlds
  rw [enter_eq, enter_eq]
  refine ⟨?_, h.errors.append herrors, hworlds⟩
  simp only [h.transitions]

/-- Both walks move data, or neither does. -/
theorem Agree.moved (hcompany : Company moveData u ms) (hperm : ms'.Perm ms) (h : Agree u ms x x')
    (policy : Policy) (plan : Plan) :
    Agree u ms (moved policy plan moveData (ms.map (·.self)) x)
      (moved policy plan moveData (ms'.map (·.self)) x') := by
  unfold Workflow.moved
  -- Whether there are failures does not depend on their order.
  rw [h.errors.isEmpty_eq]
  split
  · exact h
  · exact h.enter (fun hwalks => hwalks.data _) hcompany hperm plan.dataState

end DeploymentBackup.Workflow
