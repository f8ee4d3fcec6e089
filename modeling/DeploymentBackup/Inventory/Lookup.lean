import DeploymentBackup.Inventory.Basic
import DeploymentBackup.Remote.Host
import DeploymentBackup.Remote.Ssh
import DeploymentBackup.Workflow.Basic

namespace DeploymentBackup.Inventory

open Text Remote

/-!
# Looking deployments up

The inventories stand in one directory, a file for each deployment, and the manifests in the
same directory or below it. The instances are reached with SSH.

* `Directory` — the directory, and how instances are reached.
* `Directory.instances`, `Directory.manifest` — what a deployment consists of.
* `Directory.deployment` — the deployment as a whole.
-/

/-- The directory of inventories, with what is the same for all instances. -/
structure Directory where
  path : String
  ssh : SshSettings
  layout : Layout
  /-- The home directory of the local user. -/
  home : Option String

/-- The jobs of the hosts that were looked up so far, by the number of the host. -/
abbrev Memory := List (Nat × List Job)

/-- A name of a deployment that is also the name of a visible file. -/
def isValidName (deployment : String) : Bool :=
  !deployment.isEmpty && !hasChar deployment '/' && deployment.toList.head? ≠ some '.'

/-- The file of a deployment. -/
def fileName (deployment : String) : String :=
  deployment ++ ".yml"

namespace Directory

/-- Reads a file of the directory. -/
def readText (s : Directory) (handle : Disk.Handle) (name : String) (d : Disk) :
    Except Fault String :=
  (d.readTextIn handle name).mapError fun fault => .read (joinPath s.path name) fault.message

/-- Reads the inventory of a deployment. -/
def load (s : Directory) (deployment : String) (d : Disk) :
    Except Fault (Disk.Handle × Inventory) := do
  if !isValidName deployment then throw (.invalidName deployment)
  let handle ← (d.directoryAt s.path).mapError fun fault => .read s.path fault.message
  let text ← s.readText handle (fileName deployment) d
  let inventory ← (parse text).mapError fun cause =>
    .parse (joinPath s.path (fileName deployment)) (.yaml cause)
  return (handle, inventory)

/-- An instance with the given number. -/
def hostOf (s : Directory) (number : Nat) (l : Listed) : Host (World Memory) where
  id := .indexed l.name l.index
  layout := s.layout
  runner := (SshHost.mk s.ssh l.host l.port s.home).runner.within (·.disk)
    fun disk w => { w with disk := disk }
  known := fun w => w.fleet.lookup number
  remember := fun jobs w => { w with fleet := (number, jobs) :: w.fleet }

/-- The instances of a list, the first with the given number. -/
def hosts (s : Directory) (deployment : String) (number : Nat) :
    List Listed → Except Fault (List (Instance (World Memory)))
  | [] => .ok []
  | l :: rest =>
    if blank l.index then
      .error (.parse (joinPath s.path (fileName deployment)) (.emptyIndex l.name))
    else (hosts s deployment (number + 1) rest).map ((s.hostOf number l).toInstance :: ·)

/-- The instances of a deployment. -/
def instances (s : Directory) (deployment : String) (d : Disk) :
    Except Fault (List (Instance (World Memory))) := do
  let (_, inventory) ← s.load deployment d
  if inventory.instances.isEmpty then throw (.empty deployment)
  s.hosts deployment 0 inventory.instances

/-- The manifest of a deployment. -/
def manifest (s : Directory) (deployment : String) (d : Disk) : Except Fault String := do
  let (handle, inventory) ← s.load deployment d
  s.readText handle inventory.manifest d

/-- The deployment of a name. -/
def deployment (s : Directory) (name : String) : Deployment (World Memory) Fault where
  instances := fun w => s.instances name w.disk
  manifest := fun w => s.manifest name w.disk

end Directory

end DeploymentBackup.Inventory
