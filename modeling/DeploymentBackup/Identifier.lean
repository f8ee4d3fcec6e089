namespace DeploymentBackup

/-!
# Identifiers

An identifier names an instance of a deployment, or a blob of data. With an index it names
one concrete instance (`redis/0`); without one it names data that the whole deployment
shares and that is stored once.

* `Identifier` — a name and an index that is absent or not empty.
* `Identifier.fileName` — the file that holds the blob inside an artifact.
* `Identifier.display` — the identifier as people read it.
* `Identifier.sort` — ascending by name, the shared one before the indexed ones.
-/

/-- The identity of an instance or of a blob. -/
structure Identifier where
  name : String
  index : Option String
  index_ne_empty : index ≠ some ""
deriving DecidableEq

namespace Identifier

/-- An identifier with an index that may be missing; the empty index is a missing one. -/
def of (name : String) (index : Option String) : Identifier where
  name := name
  index := index.filter (· ≠ "")
  index_ne_empty := by
    cases index with
    | none => simp
    | some i => by_cases h : i = "" <;> simp [Option.filter, h]

/-- The identifier of a concrete instance. -/
def indexed (name index : String) : Identifier :=
  of name (some index)

/-- The identifier of data that the whole deployment shares. -/
def named (name : String) : Identifier :=
  of name none

instance : Inhabited Identifier := ⟨named ""⟩

/-- No index: the identifier of shared data. -/
def isNamed (id : Identifier) : Bool :=
  id.index.isNone

/-- The file of the blob inside an artifact. -/
def fileName (id : Identifier) : String :=
  match id.index with
  | some index => id.name ++ "-" ++ index ++ ".tar"
  | none => id.name ++ ".tar"

/-- The identifier as people read it. -/
def display (id : Identifier) : String :=
  match id.index with
  | some index => id.name ++ "/" ++ index
  | none => id.name

/-- The order of indices: a missing one comes first. -/
def indexLe : Option String → Option String → Bool
  | none, _ => true
  | some _, none => false
  | some i, some j => i ≤ j

/-- The order of identifiers: by name, then by index. -/
def le (a b : Identifier) : Bool :=
  if a.name = b.name then indexLe a.index b.index else a.name ≤ b.name

/-- Ascending order. -/
def sort (ids : List Identifier) : List Identifier :=
  ids.mergeSort le

/-- A list of identifiers in a message. -/
def displayList (ids : List Identifier) : String :=
  if ids.isEmpty then "none" else ", ".intercalate (ids.map display)

end Identifier

end DeploymentBackup
