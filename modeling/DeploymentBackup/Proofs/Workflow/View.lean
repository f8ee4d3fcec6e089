import DeploymentBackup.Proofs.Workflow.Equations

namespace DeploymentBackup

/-!
# Views of a world

Somebody who acts on a world need not see all of it. To act privately is to depend on nothing but
what one sees; and to spare another view is to change nothing that is seen there.

* `View`, `View.blind` — what is seen of a world, and what is seen with closed eyes.
* `View.Private`, `View.Spares` — what is done depends on a view, and cannot be seen in another one.
* `Confined` — both.
* `Confined.bind`, `Confined.bind_of` — actions one behind the other.
-/

variable {W α β : Type}

/-- A view of a world: which worlds look alike. A world that does not look like itself is one that
    does not occur. -/
structure View (W : Type) where
  alike : W → W → Prop
  symm : ∀ {w w'}, alike w w' → alike w' w
  trans : ∀ {w w' w''}, alike w w' → alike w' w'' → alike w w''

namespace View

variable {v u : View W} {w w' : W}

theorem left (h : v.alike w w') : v.alike w w :=
  v.trans h (v.symm h)

theorem right (h : v.alike w w') : v.alike w' w' :=
  v.trans (v.symm h) h

/-- The view in which nothing is seen. -/
def blind : View W where
  alike := fun _ _ => True
  symm := fun _ => trivial
  trans := fun _ _ => trivial

/-- What is done, and what is seen of it, depends on what was seen before. -/
def Private (v : View W) (x : W → α × W) : Prop :=
  ∀ {w w'}, v.alike w w' → (x w').1 = (x w).1 ∧ v.alike (x w).2 (x w').2

/-- What is done in worlds of the view `v` cannot be seen in `u`. -/
def Spares (v u : View W) (x : W → α × W) : Prop :=
  ∀ {w}, v.alike w w → u.alike w w → u.alike w (x w).2

end View

/-- What is done depends on the view `v`, and cannot be seen in `u`. -/
structure Confined (v u : View W) (x : W → α × W) : Prop where
  own : v.Private x
  spares : v.Spares u x

namespace Confined

variable {v u : View W}

/-- To read what is seen in a view is confined to it. -/
theorem of_read {f : W → α} (h : ∀ {w w'}, v.alike w w' → f w' = f w) :
    Confined v u fun w => (f w, w) where
  own := fun halike => ⟨h halike, halike⟩
  spares := fun _ hother => hother

theorem pure (a : α) : Confined v u (Pure.pure a : Act W α) :=
  of_read fun _ => rfl

theorem fail (cause : Instance.Fault) : Confined v u (Act.fail cause : Act W α) :=
  of_read fun _ => rfl

/-- What is made of the value does not matter. -/
theorem map {x : W → α × W} (h : Confined v u x) (f : α → β) :
    Confined v u fun w => (f (x w).1, (x w).2) where
  own := fun halike => ⟨congrArg f (h.own halike).1, (h.own halike).2⟩
  spares := h.spares

/-- The second action has to be confined for the values of the first one only. -/
theorem bind_of {x : Act W α} (h : Confined v u x) {f : α → Act W β}
    (h' : ∀ w a, v.alike w w → (x w).1 = .ok a → Confined v u (f a)) :
    Confined v u (x >>= f) where
  own := by
    intro w w' halike
    obtain ⟨hvalue, hafter⟩ := h.own halike
    simp only [Act.bind_apply]
    -- Both runs have the same value here, or the same failure.
    rcases hx : x w with ⟨halt | a, after⟩
    · rcases hx' : x w' with ⟨halt' | a', after'⟩
      · rw [hx, hx'] at hvalue hafter
        cases hvalue
        exact ⟨rfl, hafter⟩
      · rw [hx, hx'] at hvalue
        cases hvalue
    · rcases hx' : x w' with ⟨halt' | a', after'⟩
      · rw [hx, hx'] at hvalue
        cases hvalue
      · rw [hx, hx'] at hvalue hafter
        cases hvalue
        exact (h' w a (v.left halike) (by rw [hx])).own hafter
  spares := by
    intro w hown hother
    obtain ⟨-, hafter⟩ := h.own hown
    have hspared := h.spares hown hother
    simp only [Act.bind_apply]
    rcases hx : x w with ⟨halt | a, after⟩ <;> rw [hx] at hspared hafter
    · exact hspared
    · -- The second action starts in a world that looks in `u` as the first one found it.
      have hrest := (h' w a hown (by rw [hx])).spares hafter (u.right hspared)
      exact u.trans hspared hrest

theorem bind {x : Act W α} (h : Confined v u x) {f : α → Act W β}
    (h' : ∀ a, Confined v u (f a)) : Confined v u (x >>= f) :=
  h.bind_of fun _ a _ _ => h' a

theorem ite {x y : Act W α} {c : Prop} [Decidable c] (h : Confined v u x) (h' : Confined v u y) :
    Confined v u (if c then x else y : Act W α) := by
  by_cases hc : c
  · rw [if_pos hc]
    exact h
  · rw [if_neg hc]
    exact h'

end Confined

/-! ### Attempts and turns -/

namespace Confined

variable {v u : View W} {phase : Phase} {operation : Instance W → Act W Unit} {i : Instance W}

theorem attempt {x : Act W α} (h : Confined v u x) : Confined v u x.attempt := by
  rw [attempt_eq]
  exact h.map attempted

/-- A turn is confined when the question and the operation are. -/
theorem visit (hcapable : Confined v u (i.capable phase))
    (hoperation : Confined v u (operation i)) : Confined v u (phase.visit operation i) := by
  have hturn : Confined v u (phase.turn operation i) :=
    hcapable.bind fun _ => hoperation.ite (.pure ())
  rw [Phase.visit_eq]
  exact hturn.map (phase.failures i.id)

end Confined

end DeploymentBackup
