import DeploymentBackup.Cli.Arguments
import DeploymentBackup.Config.Load
import DeploymentBackup.Inventory.Lookup
import DeploymentBackup.Workflow.Backup
import DeploymentBackup.Workflow.Restore

namespace DeploymentBackup.Cli

open Inventory

/-!
# Carrying out a request

* `Failure` — why a request could not be carried out.
* `perform` — a request, with what is told about its success.
* `run` — a whole program run.
-/

/-- Why a request could not be carried out. -/
inductive Failure
  | config (cause : Config.Fault)
  | backup (cause : Workflow.Error Inventory.Fault)
  | restore (cause : Workflow.Error Inventory.Fault)
  | artifact (cause : Artifact.Fault)
  /-- The artifact holds other data than its record says. -/
  | invalid (path : String)

/-- The text of a failure. -/
def Failure.message : Failure → String
  | .config cause => "configuration error: " ++ cause.message
  | .backup cause => "backup failed: " ++ cause.message Inventory.Fault.message
  | .restore cause => "restore failed: " ++ cause.message Inventory.Fault.message
  | .artifact cause => cause.message
  | .invalid path => "artifact " ++ path ++ " does not match its recorded checksums"

/-- What surrounds a program run: the environment variables, and the time of its start and
    of its finish. -/
structure Surroundings where
  environment : Config.Environment
  start : Instant
  finish : Instant

/-- The configuration of a program run, with all values that are needed. -/
def configuration (s : Surroundings) (d : Disk) : Except Failure Config := do
  let c ← (Config.load s.environment d).mapError .config
  c.validate.mapError .config
  return c

/-- The deployments that a configuration knows. -/
def deployments (s : Surroundings) (c : Config) : Inventory.Directory :=
  ⟨c.inventory, c.ssh, c.layout, s.environment.get? "HOME"⟩

/-- What is told about a workflow that succeeded. -/
def success (operation : String) (r : Workflow.Report) : String :=
  operation ++ " " ++ r.state.name ++ " for artifact " ++ r.artifactPath ++ "\n" ++
    if r.advisory.isEmpty then ""
    else "cleanup reported failures:\n" ++ r.advisory.display ++ "\n"

/-- The world of a program run, which knows nothing of its hosts yet. -/
def world (d : Disk) : World Inventory.Memory :=
  ⟨d, [], []⟩

/-- Where a backup goes to: the given path, or a new one named for the deployment. -/
def artifactPath (s : Surroundings) (c : Config) (deployment : String)
    (artifact : Option String) : String :=
  artifact.getD (joinPath c.artifacts (defaultDirectoryName deployment s.start))

/-- The outcome of a workflow and the disk that it left. -/
def told {ε : Type} (operation : String) (wrap : Workflow.Error ε → Failure)
    (result : Except (Workflow.Error ε) Workflow.Report × World Inventory.Memory) :
    Except Failure String × Disk :=
  ((result.1.map (success operation)).mapError wrap, result.2.disk)

/-- Carries out a request and says what is told about its success. -/
def perform (s : Surroundings) (request : Request) (d : Disk) : Except Failure String × Disk :=
  match request, configuration s d with
  | .validate path, _ =>
    let outcome : Except Failure String := do
      let a ← (Artifact.openAt d path).mapError .artifact
      if ← (a.isValid d).mapError .artifact then return "artifact " ++ path ++ " is valid\n"
      else throw (.invalid path)
    (outcome, d)
  | _, .error failure => (.error failure, d)
  | .backup deployment artifact, .ok c =>
    let path := artifactPath s c deployment artifact
    told "backup" .backup <|
      Workflow.backup ((deployments s c).deployment deployment) c.policy path s.start s.finish
        (world d)
  | .restore deployment path, .ok c =>
    told "restore" .restore <|
      Workflow.restore ((deployments s c).deployment deployment) c.policy path (world d)

/-- How a program run ended: its exit status, and what it wrote. -/
structure Ended where
  status : Nat
  stdout : String
  stderr : String

/-- The end of a program run whose request was carried out, or not. -/
def Ended.of (outcome : Except Failure String) : Ended :=
  match outcome with
  | .ok text => ⟨0, text, ""⟩
  | .error failure => ⟨1, "", failure.message ++ "\n"⟩

/-- What is told about a command line that cannot be understood. -/
def usage : String :=
  "usage: backup <deployment> [--artifact-path <dir>]\n" ++
  "       restore <deployment> --artifact-path <dir>\n" ++
  "       validate --artifact-path <dir>\n"

/-- A whole program run. -/
def run (s : Surroundings) (args : List String) (d : Disk) : Ended × Disk :=
  match parse args with
  | .error .help => (⟨Refusal.help.status, usage, ""⟩, d)
  | .error .usage => (⟨Refusal.usage.status, "", usage⟩, d)
  | .ok request =>
    let (outcome, d) := perform s request d
    (.of outcome, d)

end DeploymentBackup.Cli
