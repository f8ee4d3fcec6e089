import DeploymentBackup.Disk.Resolve
import DeploymentBackup.Stream

namespace DeploymentBackup.Disk

open Text

/-!
# Files and directories

* `exists?`, `directoryAt`, `contentsAt` — what a path leads to.
* `makeDirectories`, `openDirectory` — directories.
* `existsIn`, `openIn`, `readTextIn`, `createIn`, `writeIn` — files inside an opened
  directory, which their paths cannot leave.
-/

/-! ### From the working directory -/

/-- A path leads to something. -/
def exists? (d : Disk) (path : String) : Bool :=
  match d.resolve true path with
  | .ok (.entry ..) => true
  | _ => false

/-- The directory that a path leads to. -/
def directoryAt (d : Disk) (path : String) : Except Fault Handle :=
  match d.resolve true path with
  | .ok (.entry path (.directory serial)) => .ok ⟨path, serial⟩
  | .ok (.entry ..) => .error .notDirectory
  | .ok (.free _) => .error .notFound
  | .error fault => .error fault

/-- A path leads to a directory. -/
def isDirectory (d : Disk) (path : String) : Bool :=
  (d.directoryAt path).toOption.isSome

/-- The contents of an entry. A directory can be opened but not read. -/
def sourceOf : Entry → Source
  | .file contents _ => .of contents
  | _ => ⟨[], .broken Fault.isDirectory.message⟩

/-- Opens a file for reading. -/
def openFile (d : Disk) (path : String) : Except Fault Source :=
  match d.resolve true path with
  | .ok (.entry _ entry) => .ok (sourceOf entry)
  | .ok (.free _) => .error .notFound
  | .error fault => .error fault

/-- The contents of a file. -/
def contentsAt (d : Disk) (path : String) : Except Fault Bytes :=
  match d.resolve true path with
  | .ok (.entry _ (.file contents _)) => .ok contents
  | .ok (.entry ..) => .error .isDirectory
  | .ok (.free _) => .error .notFound
  | .error fault => .error fault

/-- The text of contents. -/
def textOf (contents : Bytes) : Except Fault String :=
  match decode? contents with
  | some text => .ok text
  | none => .error .notText

/-- Makes the directory of a path, in a directory that exists. -/
def makeDirectoryAt (d : Disk) (path : String) : Except Fault Disk :=
  match d.resolve false path with
  | .ok (.entry ..) => .error .exists
  | .ok (.free path) => .ok (d.makeDirectory path)
  | .error fault => .error fault

/-- Makes the directories of steps, given last step first, that do not exist yet. Those
    that were made before a failure stay. -/
def makeSteps (d : Disk) (root : String) : List String → Except Fault Unit × Disk
  | [] => (.ok (), d)
  | step :: before =>
    let path := root ++ "/".intercalate (step :: before).reverse
    match d.makeDirectoryAt path with
    | .ok d => (.ok (), d)
    | .error .notFound =>
      match makeSteps d root before with
      | (.error fault, d) => (.error fault, d)
      | (.ok (), d) =>
        match d.makeDirectoryAt path with
        | .ok d => (.ok (), d)
        | .error fault => (if d.isDirectory path then .ok () else .error fault, d)
    | .error fault => (if d.isDirectory path then .ok () else .error fault, d)

/-- Makes a directory and those above it that do not exist yet. -/
def makeDirectories (d : Disk) (path : String) : Except Fault Unit × Disk :=
  let text := PathText.of path
  makeSteps d (if text.absolute then "/" else "") (text.steps.filter (· ≠ ".")).reverse

/-! ### Inside an opened directory -/

/-- Something is at a path inside an opened directory. -/
def existsIn (d : Disk) (handle : Handle) (path : String) : Bool :=
  match d.resolveIn handle path with
  | .ok (.entry ..) => true
  | _ => false

/-- Opens a file for reading. -/
def openIn (d : Disk) (handle : Handle) (path : String) : Except Fault Source :=
  match d.resolveIn handle path with
  | .ok (.entry _ entry) => .ok (sourceOf entry)
  | .ok (.free _) => .error .notFound
  | .error fault => .error fault

/-- The text of a file. -/
def readTextIn (d : Disk) (handle : Handle) (path : String) : Except Fault String :=
  match d.resolveIn handle path with
  | .ok (.entry _ (.file contents _)) => textOf contents
  | .ok (.entry ..) => .error .isDirectory
  | .ok (.free _) => .error .notFound
  | .error fault => .error fault

/-- A file that was opened for writing. -/
structure WriteHandle where
  path : Path
deriving DecidableEq, Repr

/-- Opens a file for writing; it is made when there is none, and emptied otherwise. -/
def createIn (d : Disk) (handle : Handle) (path : String) : Except Fault (WriteHandle × Disk) :=
  match d.resolveIn handle path with
  | .ok (.entry path (.file _ executable)) => .ok (⟨path⟩, d.set path (.file [] executable))
  | .ok (.entry ..) => .error .isDirectory
  | .ok (.free path) => .ok (⟨path⟩, d.set path (.file [] false))
  | .error fault => .error fault

/-- Writes the contents of a file that was opened and not removed since. -/
def write (d : Disk) (file : WriteHandle) (contents : Bytes) : Disk :=
  match d.get? file.path with
  | some (.file _ executable) => d.set file.path (.file contents executable)
  | _ => d

/-- Replaces the contents of a file, or makes the file. -/
def writeIn (d : Disk) (handle : Handle) (path : String) (contents : Bytes) :
    Except Fault Disk :=
  (d.createIn handle path).map fun (file, d) => d.write file contents

end DeploymentBackup.Disk
