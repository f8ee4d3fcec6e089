import DeploymentBackup.Disk.Basic
import DeploymentBackup.Text.Lines

namespace DeploymentBackup

open Text

/-!
# Following paths

A path is followed step by step, through the links on its way. Inside a directory that must
not be left, a path that starts at the root, goes above that directory or leads through a
link that does is refused. So is every path that holds a zero character, before anything is
looked up.

* `PathText` — a written path: where it starts, and its steps.
* `Disk.Place` — where a path leads: to an entry, or to a name that is free.
* `Disk.resolve` — a path from the working directory.
* `Disk.resolveIn` — a path inside a directory that must not be left.
-/

/-- The steps of a written path, and whether they start at the root. -/
structure PathText where
  absolute : Bool
  steps : List String
deriving DecidableEq, Repr

/-- Reads a path. Empty steps are dropped; a slash at the end asks for a directory, as a
    last step `.` does. -/
def PathText.of (path : String) : PathText :=
  let cs := path.toList
  let names := ((pieces '/' cs).filter (· ≠ [])).map String.ofList
  ⟨cs.head? = some '/', if cs.getLast? = some '/' then names ++ ["."] else names⟩

/-- Appends a relative path to a path; an absolute path replaces it. -/
def joinPath (base path : String) : String :=
  if base.isEmpty || (PathText.of path).absolute then path
  else if base.toList.getLast? = some '/' then base ++ path
  else base ++ "/" ++ path

namespace Disk

/-- Where a path leads. -/
inductive Place
  | entry (path : Path) (entry : Entry)
  /-- Nothing is there, in a directory that exists. -/
  | free (path : Path)
deriving DecidableEq, Repr

/-- The longest name of an entry, in bytes. -/
def longestName : Nat := 255

/-- The longest written path, in bytes. -/
def longestPath : Nat := 4095

/-- The most links on a way. -/
def mostLinks : Nat := 40

/-- Follows steps from the directory `current`. With a `base`, that directory is not left.
    A link at the last step is followed when `follow` says so. -/
def walk (d : Disk) (base : Option Path) (follow : Bool) :
    (links : Nat) → (current : Path) → List String → Except Fault Place
  | _, current, [] =>
    match d.get? current with
    | some entry => .ok (.entry current entry)
    | none => .error .notFound
  | links, current, step :: rest =>
    if step = "." then walk d base follow links current rest
    else if step = ".." then
      if base = some current then .error .outside
      else walk d base follow links current.dropLast rest
    else if step.utf8ByteSize > longestName then .error .nameTooLong
    else
      let path := current ++ [step]
      match d.get? path with
      | none => if rest.isEmpty then .ok (.free path) else .error .notFound
      | some (.directory _) => walk d base follow links path rest
      | some (.file contents executable) =>
        if rest.isEmpty then .ok (.entry path (.file contents executable))
        else .error .notDirectory
      | some (.link target) =>
        if rest.isEmpty && !follow then .ok (.entry path (.link target))
        else
          match links with
          | 0 => .error .tooManyLinks
          | links + 1 =>
            let text := PathText.of target
            if text.absolute then
              if base.isSome then .error .outside
              else walk d base follow links [] (text.steps ++ rest)
            else walk d base follow links current (text.steps ++ rest)
termination_by links _ steps => (links, steps.length)

/-- Where a path from the working directory leads. A zero character ends the path for the system,
    so a path that holds one is refused before the system is asked. -/
def resolve (d : Disk) (follow : Bool) (path : String) : Except Fault Place :=
  let text := PathText.of path
  if hasChar path '\x00' then .error .zeroByte
  else if path.isEmpty then .error .notFound
  else if path.utf8ByteSize > longestPath then .error .nameTooLong
  else d.walk none follow mostLinks (if text.absolute then [] else d.workdir) text.steps

/-- A directory that was opened. It is gone once it was removed, even when another one has
    taken its place. -/
structure Handle where
  path : Path
  serial : Nat
deriving DecidableEq, Repr

/-- An opened directory is still there. -/
def isOpen (d : Disk) (handle : Handle) : Bool :=
  d.get? handle.path = some (.directory handle.serial)

/-- Where a path inside an opened directory leads. A path that holds a zero character is refused
    like one that the system refuses, whatever is there. -/
def resolveIn (d : Disk) (handle : Handle) (path : String) : Except Fault Place :=
  let text := PathText.of path
  if hasChar path '\x00' then .error .invalid
  else if path.isEmpty then .error .notFound
  else if path.utf8ByteSize > longestPath then .error .nameTooLong
  else if text.absolute then .error .outside
  else if !d.isOpen handle then .error .notFound
  else d.walk (some handle.path) true mostLinks handle.path text.steps

end Disk

end DeploymentBackup
