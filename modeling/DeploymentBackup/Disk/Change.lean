import DeploymentBackup.Disk.Files

namespace DeploymentBackup.Disk

open Text

/-!
# Changes made from outside

A disk may be changed by something that knows nothing of handles: files are written with
the directories above them, and whole trees are removed. What was done before a change
failed stays.

* `Change`, `apply` — a change.
* `listing` — everything below a directory.
-/

/-- A change of a disk. -/
inductive Change
  | write (path : String) (contents : Bytes) (executable : Bool)
  | makeDirectories (path : String)
  | link (path target : String)
  | remove (path : String)
deriving DecidableEq, Repr

/-- Makes the directories above a path. -/
def makeParents (d : Disk) (path : String) : Except Fault Unit × Disk :=
  let text := PathText.of path
  d.makeSteps (if text.absolute then "/" else "") ((text.steps.filter (· ≠ ".")).reverse.drop 1)

/-- Writes a file; one that exists keeps being executable. -/
def writeFile (d : Disk) (path : String) (contents : Bytes) (executable : Bool) :
    Except Fault Disk :=
  match d.resolve true path with
  | .ok (.entry path (.file _ before)) => .ok (d.set path (.file contents (before || executable)))
  | .ok (.entry ..) => .error .isDirectory
  | .ok (.free path) => .ok (d.set path (.file contents executable))
  | .error fault => .error fault

/-- Makes a link at a path where nothing is. There is no link to a path without characters. -/
def makeLink (d : Disk) (path target : String) : Except Fault Disk :=
  if hasChar target '\x00' then .error .zeroByte
  else if target.isEmpty then .error .notFound
  else
    match d.resolve false path with
    | .ok (.entry ..) => .error .exists
    | .ok (.free path) => .ok (d.set path (.link target))
    | .error fault => .error fault

/-- Removes a file, a link or a tree. -/
def removeAt (d : Disk) (path : String) : Except Fault Disk :=
  match d.resolve false path with
  | .ok (.entry path _) => .ok (d.remove path)
  | .ok (.free _) => .error .notFound
  | .error fault => .error fault

/-- Makes a change. -/
def apply (d : Disk) : Change → Except Fault Unit × Disk
  | .write path contents executable =>
    match d.makeParents path with
    | (.error fault, d) => (.error fault, d)
    | (.ok (), d) => settle d (d.writeFile path contents executable)
  | .makeDirectories path => d.makeDirectories path
  | .link path target => settle d (d.makeLink path target)
  | .remove path => settle d (d.removeAt path)
where
  /-- The disk after a step that changes nothing when it fails. -/
  settle (d : Disk) : Except Fault Disk → Except Fault Unit × Disk
    | .ok d => (.ok (), d)
    | .error fault => (.error fault, d)

/-- Makes changes in order; those that fail are passed over. -/
def applyAll (d : Disk) (changes : List Change) : Disk :=
  changes.foldl (fun d change => (d.apply change).2) d

/-- An entry leads to a directory. -/
def leadsToDirectory (d : Disk) (path : Path) : Bool :=
  match d.walk none true mostLinks [] path with
  | .ok (.entry _ (.directory _)) => true
  | _ => false

/-- Everything below a directory in ascending order. A directory has a slash at its end. -/
def listing (d : Disk) (directory : Path) : List String :=
  let below := d.entries.filter fun e => directory.isPrefixOf e.1 && e.1 ≠ directory
  (below.map fun e =>
    "/".intercalate (e.1.drop directory.length) ++
      (if d.leadsToDirectory e.1 then "/" else "")).mergeSort (· ≤ ·)

/-- Everything below a path that leads to a directory. -/
def listAt (d : Disk) (path : String) : Except Fault (List String) :=
  (d.directoryAt path).map fun handle => d.listing handle.path

end DeploymentBackup.Disk
