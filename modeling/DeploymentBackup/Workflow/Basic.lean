import DeploymentBackup.Disk.Files
import DeploymentBackup.Phase.Sweep

namespace DeploymentBackup

/-!
# Workflows

A backup and a restore are the same walk through phases: every instance is locked, data is
moved, every instance is unlocked, and all is cleaned up. What goes wrong on an instance is
recorded and never ends the walk, so an instance that can be unlocked is unlocked.

* `World` — the disk, the claims of a running backup, and the world of the instances.
* `Deployment` — where the instances and the manifest come from.
* `Plan` — the phases of a workflow.
* `drive` — the walk through the phases.
* `Report`, `WorkflowError` — how a workflow ends.
-/

/-- What a workflow acts on: the local disk, the shared blobs that the running backup has
    taken already, and the world of the instances. -/
structure World (F : Type) where
  disk : Disk
  claimed : List Identifier
  fleet : F

/-- An instance that acts on its own world only. -/
def Instance.inFleet {F : Type} (i : Instance F) : Instance (World F) :=
  i.within (·.fleet) (fun fleet w => { w with fleet := fleet })

/-- The instances and the manifest of a deployment, or the failure `ε` to find them. -/
structure Deployment (W ε : Type) where
  instances : W → Except ε (List (Instance W))
  manifest : W → Except ε String

namespace Workflow

/-- What a workflow is at. -/
inductive State
  | notStarted
  | locking
  | backingUp
  | restoring
  | unlocking
  | cleanup
  | completed
  | failed
deriving DecidableEq, Repr

/-- The name of a state. -/
def State.name : State → String
  | .notStarted => "not-started"
  | .locking => "locking"
  | .backingUp => "backing-up"
  | .restoring => "restoring"
  | .unlocking => "unlocking"
  | .cleanup => "cleanup"
  | .completed => "completed"
  | .failed => "failed"

/-- What happens when an instance could not be locked. -/
inductive Policy
  /-- Data is moved all the same. -/
  | continueOn
  /-- No data is moved. -/
  | failFast
deriving DecidableEq, Repr

/-- The name of a policy. -/
def Policy.name : Policy → String
  | .continueOn => "continue"
  | .failFast => "fail-fast"

/-- The phases of a workflow; cleaning up comes last in each. -/
structure Plan where
  lock : Phase
  data : Phase
  dataState : State
  unlock : Phase
deriving DecidableEq, Repr

/-- The phases of a backup. -/
def backupPlan : Plan :=
  ⟨.preBackupLock, .backup, .backingUp, .postBackupUnlock⟩

/-- The phases of a restore. -/
def restorePlan : Plan :=
  ⟨.preRestoreLock, .restore, .restoring, .postRestoreUnlock⟩

/-- The states entered so far and the failures seen. -/
structure Progress where
  transitions : List State
  errors : PhaseErrors
deriving DecidableEq

/-- Nothing has happened yet. -/
def Progress.start : Progress :=
  ⟨[.notStarted], []⟩

/-- Enters a state, in which an operation is carried out on all instances. -/
def Progress.enter {W : Type} (p : Progress) (state : State) (phase : Phase)
    (operation : Instance W → Act W Unit) (instances : List (Instance W)) (w : W) :
    Progress × W :=
  let (errors, w) := phase.sweep operation instances w
  (⟨p.transitions ++ [state], p.errors ++ errors⟩, w)

/-- The walk through the phases of a plan. Data is not moved when locking failed and the
    policy says so; unlocking and cleaning up are never left out. -/
def drive {W : Type} (policy : Policy) (plan : Plan) (moveData : Instance W → Act W Unit)
    (instances : List (Instance W)) (w : W) : Progress × W :=
  let (p, w) := Progress.start.enter .locking plan.lock plan.lock.own instances w
  let (p, w) :=
    if policy = .failFast && !p.errors.isEmpty then (p, w)
    else p.enter plan.dataState plan.data moveData instances w
  let (p, w) := p.enter .unlocking plan.unlock plan.unlock.own instances w
  p.enter .cleanup .cleanup (Phase.own .cleanup) instances w

/-- The record of a workflow that went through its phases. -/
structure Report where
  state : State
  artifactPath : String
  errors : PhaseErrors
  advisory : PhaseErrors
  transitions : List State
deriving DecidableEq

/-- Why a workflow did not succeed. -/
inductive Error (ε : Type)
  /-- The deployment could not be looked up. -/
  | deployment (cause : ε)
  | artifact (cause : Artifact.Fault)
  /-- The instances in the artifact are not those of the deployment. -/
  | compatibility (missing unexpected : List Identifier)
  /-- Instances with data cannot be restored. -/
  | notRestorable (instances : List Identifier)
  /-- Instances could not be asked for their data. -/
  | discovery (errors : PhaseErrors)
  /-- A phase failed on some instance. -/
  | failed (report : Report)

/-- The text of a failure. -/
def Error.message {ε : Type} (cause : ε → String) : Error ε → String
  | .deployment e => "failed to look up deployment: " ++ cause e
  | .artifact fault => fault.message
  | .compatibility missing unexpected =>
    "artifact does not match deployment (missing: " ++ Identifier.displayList missing ++
      "; unexpected: " ++ Identifier.displayList unexpected ++ ")"
  | .notRestorable instances =>
    "instances cannot be restored: " ++ Identifier.displayList instances
  | .discovery errors => "failed to inspect deployment instances:\n" ++ errors.display
  | .failed report => "workflow failed:\n" ++ report.errors.display

/-- Some failure makes the run fail. -/
def Progress.isBlocked (p : Progress) : Bool :=
  !p.errors.blocking.isEmpty

/-- The end of a workflow that went through its phases. -/
def Progress.finish {ε : Type} (p : Progress) (path : String) : Except (Error ε) Report :=
  let state : State := if p.isBlocked then .failed else .completed
  let report : Report :=
    ⟨state, path, p.errors.blocking, p.errors.advisory, p.transitions ++ [state]⟩
  if p.isBlocked then .error (.failed report) else .ok report

end Workflow

end DeploymentBackup
