import DeploymentBackup.Instance.Fault
import DeploymentBackup.Phase.Basic

namespace DeploymentBackup

/-!
# Failures of a phase

* `PhaseError` — an instance that failed in a phase.
* `PhaseErrors` — the failures of a run, in the order in which they were reported.
* `PhaseErrors.blocking`, `PhaseErrors.advisory` — those that make a run fail, and the
  others.
-/

/-- The failure of one instance in one phase. -/
structure PhaseError where
  id : Identifier
  phase : Phase
  cause : Instance.Fault
deriving DecidableEq

/-- The text of a failure. -/
def PhaseError.message (e : PhaseError) : String :=
  e.id.display ++ " failed during " ++ e.phase.name ++ ": " ++ e.cause.message

/-- Failures in the order in which they were reported. -/
abbrev PhaseErrors := List PhaseError

namespace PhaseErrors

/-- The failures that make a run fail. -/
def blocking (errors : PhaseErrors) : PhaseErrors :=
  errors.filter (! ·.phase.isAdvisory)

/-- The failures that are only reported. -/
def advisory (errors : PhaseErrors) : PhaseErrors :=
  errors.filter (·.phase.isAdvisory)

/-- The lines of a numbered list, the first with the number `n`. -/
def numbered (n : Nat) : PhaseErrors → List String
  | [] => []
  | e :: rest => (toString n ++ ". " ++ e.message) :: numbered (n + 1) rest

/-- The failures as a numbered list. -/
def display (errors : PhaseErrors) : String :=
  "\n".intercalate (numbered 1 errors)

end PhaseErrors

end DeploymentBackup
