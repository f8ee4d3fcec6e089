import DeploymentBackup.Text.Utf8

namespace DeploymentBackup

open Text

/-!
# Disks

A disk is a tree of directories, files and symbolic links, kept as the list of its paths.
A directory has a serial number, so that one that was removed and made again can be told
from the one before.

* `Disk` — the tree.
* `Disk.get?`, `Disk.set`, `Disk.remove` — one path.
* `Disk.Fault` — why an operation failed.
-/

/-- A path from the root, as the names of its steps. -/
abbrev Path := List String

/-- What stands at a path. -/
inductive Entry
  | directory (serial : Nat)
  | file (contents : Bytes) (executable : Bool)
  | link (target : String)
deriving DecidableEq, Repr

/-- A tree of files. Relative paths start at `workdir`; `serial` is the next unused number. -/
structure Disk where
  entries : List (Path × Entry)
  workdir : Path
  serial : Nat
deriving DecidableEq, Repr

namespace Disk

/-- Why an operation on a disk failed. -/
inductive Fault
  | notFound
  | denied
  | exists
  | notDirectory
  | isDirectory
  /-- The system refused the path, which holds a zero character. -/
  | invalid
  /-- The path holds a zero character, and the system was not asked. -/
  | zeroByte
  | brokenPipe
  | nameTooLong
  | tooManyLinks
  /-- The path leaves the directory that it is confined to. -/
  | outside
  /-- The file is not text. -/
  | notText
deriving DecidableEq, Repr

/-- The text of a fault. -/
def Fault.message : Fault → String
  | .notFound => "No such file or directory (os error 2)"
  | .denied => "Permission denied (os error 13)"
  | .exists => "File exists (os error 17)"
  | .notDirectory => "Not a directory (os error 20)"
  | .isDirectory => "Is a directory (os error 21)"
  | .invalid => "Invalid argument (os error 22)"
  | .zeroByte => "file name contained an unexpected NUL byte"
  | .brokenPipe => "Broken pipe (os error 32)"
  | .nameTooLong => "File name too long (os error 36)"
  | .tooManyLinks => "Too many levels of symbolic links (os error 40)"
  | .outside => "a path led outside of the filesystem"
  | .notText => "stream did not contain valid UTF-8"

/-- The entry at a path in a list. -/
def entryOf (path : Path) (entries : List (Path × Entry)) : Option Entry :=
  (entries.find? (·.1 = path)).map (·.2)

/-- The entry at a path; the root is a directory. -/
def get? (d : Disk) (path : Path) : Option Entry :=
  if path = [] then some (.directory 0) else entryOf path d.entries

/-- Replaces the entry at a path in a list, or adds one. -/
def setEntry (path : Path) (entry : Entry) : List (Path × Entry) → List (Path × Entry)
  | [] => [(path, entry)]
  | (p, e) :: rest => if p = path then (path, entry) :: rest else (p, e) :: setEntry path entry rest

/-- The disk with an entry at a path. -/
def set (d : Disk) (path : Path) (entry : Entry) : Disk :=
  { d with entries := setEntry path entry d.entries }

/-- The disk with a new directory at a path. -/
def makeDirectory (d : Disk) (path : Path) : Disk :=
  { d.set path (.directory d.serial) with serial := d.serial + 1 }

/-- The disk without a path and everything below it. -/
def remove (d : Disk) (path : Path) : Disk :=
  { d with entries := d.entries.filter fun e => !path.isPrefixOf e.1 }

/-- A disk with an empty working directory and nothing else. -/
def fresh : Disk :=
  ⟨[(["work"], .directory 1)], ["work"], 2⟩

theorem entryOf_setEntry (path other : Path) (entry : Entry) (entries : List (Path × Entry)) :
    entryOf other (setEntry path entry entries) =
      if other = path then some entry else entryOf other entries := by
  induction entries with
  | nil => by_cases h : path = other <;> simp [setEntry, entryOf, h, eq_comm]
  | cons head rest ih =>
    obtain ⟨p, e⟩ := head
    simp only [entryOf] at ih
    by_cases hp : p = path
    · by_cases ho : other = path
      · simp [setEntry, entryOf, hp, ho]
      · simp [setEntry, entryOf, hp, ho, Ne.symm ho]
    · by_cases hq : p = other
      · simp [setEntry, entryOf, hq, show other ≠ path from hq ▸ hp]
      · simp [setEntry, entryOf, hp, hq, ih]

/-- Setting an entry changes this path alone. -/
theorem get?_set (d : Disk) (path other : Path) (entry : Entry) (h : path ≠ []) :
    (d.set path entry).get? other = if other = path then some entry else d.get? other := by
  by_cases ho : other = [] <;> by_cases hp : other = path <;>
    simp_all [set, get?, entryOf_setEntry]

end Disk

end DeploymentBackup
