import DeploymentBackup.Remote.Layout
import DeploymentBackup.Remote.Ssh
import DeploymentBackup.Workflow.Basic

namespace DeploymentBackup

open Text

/-!
# Configuration

* `Config` — where things are and how hosts are reached.
* `Config.validate` — every setting that is needed has a value.
* `Config.Fault` — why there is no configuration.
-/

/-- The settings of a program run. -/
structure Config where
  /-- The directory of inventories. -/
  inventory : String
  /-- The directory in which new artifacts are made. -/
  artifacts : String
  ssh : Remote.SshSettings
  layout : Remote.Layout
  /-- No data is moved when an instance could not be locked. -/
  failFast : Bool
deriving DecidableEq, Repr

namespace Config

/-- The settings that hold unless something else is said. -/
def standard : Config :=
  ⟨"inventory", ".", .standard, .standard, false⟩

/-- The policy about instances that could not be locked. -/
def policy (c : Config) : Workflow.Policy :=
  if c.failFast then .failFast else .continueOn

/-- Why there is no configuration. -/
inductive Fault
  /-- A setting is blank: what it is about, and its key. -/
  | missing (description key : String)
  /-- A source of settings cannot be read. -/
  | unreadable (message : String)
deriving DecidableEq, Repr

/-- The text of a fault. It says where the setting can be given. -/
def Fault.message : Fault → String
  | .missing description key =>
    "missing configuration field: missing " ++ description ++ ": set FLEETBACK_" ++
      upperAscii key ++ " or add " ++ key ++ " to fleetback.toml"
  | .unreadable message => "configuration parsing failed: " ++ message

/-- The settings that must have a value: what each is about, its key, and its value. -/
def required (c : Config) : List (String × String × String) :=
  [("inventory directory", "inventory_dir", c.inventory),
   ("artifact root", "artifact_root", c.artifacts),
   ("ssh executable", "ssh_bin", c.ssh.program),
   ("ssh user", "ssh_user", c.ssh.user),
   ("remote jobs directory", "jobs_root", c.layout.jobsRoot),
   ("remote backup directory", "backup_root", c.layout.backupRoot)] ++
  c.ssh.identity.toList.map fun path => ("ssh identity file", "ssh_identity_file", path)

/-- No setting that must have a value is blank; the first that is blank is reported. -/
def validate (c : Config) : Except Fault Unit :=
  match c.required.find? fun (_, _, value) => blank value with
  | some (description, key, _) => .error (.missing description key)
  | none => .ok ()

end Config

end DeploymentBackup
