import DeploymentBackup.Instance.Basic
import DeploymentBackup.Phase.Errors

namespace DeploymentBackup

/-!
# One phase over all instances

An operation is carried out for each instance that is capable of the phase. A failure of one
instance is recorded and does not keep the others from their turn; when all have had theirs,
the phase is over.

A turn is a task for a pool of workers, and the failures are collected in the order of the
instances, whichever turn ends first. The pool has one worker here, so that the order of the list
is the one schedule: no turn begins before the one in front of it has ended. With more workers,
the turns of a phase may overlap. What they share, the record of the artifact and the claims, is
guarded then, but it is open which one of two instances comes to a shared blob first.

* `Phase.visit` — the turn of one instance.
* `Phase.sweep` — all turns, with the failures in the order of the instances.
-/

namespace Phase

variable {W : Type}

/-- The failure that a halted action stands for. -/
def causeOf : Halt → Instance.Fault
  | .fault cause => cause
  | .panic payload => .panicked payload.message

/-- The turn of one instance: the operation, if the instance is capable of the phase. -/
def turn (phase : Phase) (operation : Instance W → Act W Unit) (i : Instance W) : Act W Unit := do
  if ← i.capable phase then operation i

/-- The turn of one instance, and its failure if there is one. -/
def visit (phase : Phase) (operation : Instance W → Act W Unit) (i : Instance W) (w : W) :
    PhaseErrors × W :=
  match turn phase operation i w with
  | (.ok (), w) => ([], w)
  | (.error halt, w) => ([⟨i.id, phase, causeOf halt⟩], w)

/-- The turns of all instances. The order of the list is their one schedule: none of them begins
    before the one in front of it has ended. -/
def sweep (phase : Phase) (operation : Instance W → Act W Unit) :
    List (Instance W) → W → PhaseErrors × W
  | [], w => ([], w)
  | i :: rest, w =>
    let (errors, w) := visit phase operation i w
    let (others, w) := sweep phase operation rest w
    (errors ++ others, w)

/-- The action that belongs to the phase. -/
def own (phase : Phase) (i : Instance W) : Act W Unit :=
  i.act phase

end Phase

end DeploymentBackup
