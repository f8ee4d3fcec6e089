import DeploymentBackup.Metadata.Written

namespace DeploymentBackup

open Text Yaml

/-!
# Inventories

An inventory says of which instances a deployment consists, how each one is reached, and
where the manifest of the deployment is.

* `Inventory` — an inventory with its listed instances.
* `Inventory.parse` — the inventory of a text.
* `Inventory.Fault` — why a deployment could not be looked up.
-/

/-- An instance of an inventory. -/
structure Inventory.Listed where
  name : String
  index : String
  id : Option String
  host : String
  port : Nat
deriving DecidableEq, Repr

/-- The instances of a deployment, and the path of its manifest. -/
structure Inventory where
  manifest : String
  instances : List Inventory.Listed
deriving DecidableEq, Repr

namespace Inventory

/-! ### Reading -/

/-- The port of a host that does not name one. -/
def standardPort : Nat := 22

/-- An index as a text: a text or an integer of at most 64 bits without a sign. -/
def readIndex (d : Document) (node : Node) : Except Yaml.Fault String :=
  match (d.scalar node).bind Scalar.meaning with
  | .error fault => .error fault
  | .ok (.text text) => .ok text
  | .ok (.integer n) =>
    if 0 ≤ n ∧ n < UInt64.size then .ok (toString n)
    else .error (.wrongKind "an index as a string or unsigned integer")
  | .ok _ => .error (.wrongKind "an index as a string or unsigned integer")

/-- A port: a plain integer of 16 bits without a minus sign. A literal block will do when it
    is tagged as an integer. -/
def readPort (d : Document) (node : Node) : Except Yaml.Fault Nat :=
  match d.scalar node with
  | .error fault => .error fault
  | .ok s =>
    let spelled := s.style = .plain || (s.style = .literal && s.tag = some (coreTag "int"))
    match integer? s.text.toList with
    | some (.ofNat n) =>
      if spelled && s.text.toList.head? ≠ some '-' && n < UInt16.size then .ok n
      else .error (.wrongKind "a port")
    | _ => .error (.wrongKind "a port")

/-- An instance. -/
def readListed (d : Document) (node : Node) : Except Yaml.Fault Listed := do
  let fields ← Fields.ofEntries d ["name", "index", "id", "host", "port"] (← d.entries node)
  let name ← fields.get "name" d.text
  let index ← fields.get "index" (readIndex d)
  let id ← fields.getD "id" none d.optionalText
  let host ← fields.get "host" d.text
  let port ← fields.getD "port" standardPort (readPort d)
  return ⟨name, index, id, host, port⟩

/-- The inventory of a document. -/
def ofDocument (d : Document) : Except Yaml.Fault Inventory := do
  let fields ← Fields.ofEntries d ["manifest", "instances"] (← d.rootEntries)
  let manifest ← fields.get "manifest" d.text
  let instances ← fields.getD "instances" [] (d.list (readListed d))
  return ⟨manifest, instances⟩

/-- The inventory of a text. -/
def parse (text : String) : Except Yaml.Fault Inventory :=
  (Yaml.parse text).bind ofDocument

/-! ### Failures -/

/-- What is wrong with the text of an inventory. -/
inductive Defect
  | yaml (cause : Yaml.Fault)
  /-- An instance has a blank index. -/
  | emptyIndex (name : String)
deriving DecidableEq

/-- Why a deployment could not be looked up. -/
inductive Fault
  | invalidName (deployment : String)
  | read (path message : String)
  | parse (path : String) (defect : Defect)
  /-- The inventory lists no instances. -/
  | empty (deployment : String)
deriving DecidableEq

/-- The text of a defect. -/
def Defect.message : Defect → String
  | .yaml cause => cause.message
  | .emptyIndex name => "instance " ++ name ++ " has an empty index"

/-- The text of a failure. -/
def Fault.message : Fault → String
  | .invalidName deployment => "invalid deployment name: " ++ deployment
  | .read path message => "failed to read " ++ path ++ ": " ++ message
  | .parse path defect => "failed to parse " ++ path ++ ": " ++ defect.message
  | .empty deployment => "deployment " ++ deployment ++ " has no instances"

end Inventory

end DeploymentBackup
