import DeploymentBackup.Instance.Fault

namespace DeploymentBackup

/-!
# Actions

An action of an instance changes the world `W` and has an outcome: a value, a failure that
it reports, or a panic that cuts it off. Changes made before a failure stay.

* `Halt` — how an action may end without a value.
* `Act` — an action.
* `Act.within` — an action of a part of the world.
-/

/-- What a panic carries: usually a text. -/
inductive Panic
  | text (message : String)
  | other
deriving DecidableEq, Repr

/-- How an action ends without a value. -/
inductive Halt
  | fault (cause : Instance.Fault)
  | panic (payload : Panic)
deriving DecidableEq

/-- The text of a panic. -/
def Panic.message : Panic → String
  | .text message => message
  | .other => "non-string panic payload"

/-- An action on a world. -/
def Act (W α : Type) : Type :=
  W → Except Halt α × W

namespace Act

variable {W V α β : Type}

/-- Changes nothing and has a value. -/
def pure (a : α) : Act W α :=
  fun w => (.ok a, w)

/-- Goes on with the value of an action, if it has one. -/
def bind (x : Act W α) (f : α → Act W β) : Act W β :=
  fun w =>
    match x w with
    | (.ok a, w) => f a w
    | (.error halt, w) => (.error halt, w)

instance : Monad (Act W) where
  pure := pure
  bind := bind

/-- Reports a failure. -/
def fail (cause : Instance.Fault) : Act W α :=
  fun w => (.error (.fault cause), w)

/-- The value of a result, or its failure. -/
def ofExcept (r : Except Instance.Fault α) : Act W α :=
  match r with
  | .ok a => pure a
  | .error cause => fail cause

/-- An action with a failure of its own kind. -/
def ofResult {ε : Type} (wrap : ε → Instance.Fault) (x : W → Except ε α × W) : Act W α :=
  fun w => ((x w).1.mapError fun e => .fault (wrap e), (x w).2)

/-- The outcome of an action that reads the world. -/
def read (f : W → Except Instance.Fault α) : Act W α :=
  fun w => ofExcept (f w) w

/-- A failure of an action is a value; a panic stays a panic. -/
def attempt (x : Act W α) : Act W (Except Instance.Fault α) :=
  fun w =>
    match x w with
    | (.ok a, w) => (.ok (.ok a), w)
    | (.error (.fault cause), w) => (.ok (.error cause), w)
    | (.error (.panic payload), w) => (.error (.panic payload), w)

/-- An action of a part of the world. -/
def within (part : V → W) (put : W → V → V) (x : Act W α) : Act V α :=
  fun v => ((x (part v)).1, put (x (part v)).2 v)

@[simp] theorem pure_apply (a : α) (w : W) : (Pure.pure a : Act W α) w = (.ok a, w) := rfl

theorem bind_apply (x : Act W α) (f : α → Act W β) (w : W) :
    (x >>= f) w =
      match x w with
      | (.ok a, w) => f a w
      | (.error halt, w) => (.error halt, w) := rfl

theorem bind_eq_ok_iff {x : Act W α} {f : α → Act W β} {w w' : W} {b : β} :
    (x >>= f) w = (.ok b, w') ↔ ∃ a after, x w = (.ok a, after) ∧ f a after = (.ok b, w') := by
  rw [bind_apply]
  rcases x w with ⟨halt | a, after⟩
  · simp
  · exact ⟨fun h => ⟨a, after, rfl, h⟩, fun ⟨_, _, hx, h⟩ => by cases hx; exact h⟩

theorem bind_assoc {γ : Type} (x : Act W α) (f : α → Act W β) (g : β → Act W γ) :
    x >>= f >>= g = x >>= fun a => f a >>= g := by
  funext w
  simp only [bind_apply]
  rcases x w with ⟨halt | a, after⟩ <;> rfl

theorem ofExcept_apply (r : Except Instance.Fault α) (w : W) :
    (ofExcept r : Act W α) w = (r.mapError .fault, w) := by
  cases r <;> rfl

end Act

end DeploymentBackup
