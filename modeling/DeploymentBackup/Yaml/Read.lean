import DeploymentBackup.Yaml.Compose
import DeploymentBackup.Yaml.Meaning
import DeploymentBackup.Yaml.Tokens

namespace DeploymentBackup.Yaml

/-!
# Reading records from a document

A record is a mapping with known fields. Its reader says for each field what it expects:
a text, which may be spelled in any way that a scalar can be, a list, a record. Where a
collection is expected, nothing at all stands for an empty one.

* `parse` — the document of a text.
* `Document.text`, `Document.optionalText` — texts.
* `Document.items`, `Document.entries` — collections.
* `Fields` — the known fields of a record, and `Fields.get`, `Fields.getD` their values.
-/

/-- The document of a text. -/
def parse (text : String) : Except Fault Document :=
  (tokens text).bind documentOf

namespace Document

/-- The scalar at a node. -/
def scalar (d : Document) (node : Node) : Except Fault Scalar :=
  match d.resolve? node with
  | some (.scalar s) => .ok s
  | _ => .error (.wrongKind "a scalar")

/-- The text of a scalar, however it is written. -/
def text (d : Document) (node : Node) : Except Fault String :=
  (d.scalar node).map (·.text)

/-- A text that may be missing: a plain scalar that spells nothing. -/
def optionalText (d : Document) (node : Node) : Except Fault (Option String) :=
  match d.scalar node with
  | .error fault => .error fault
  | .ok s =>
    if s.style ≠ .plain then .ok (some s.text)
    else
      match s.tag with
      | none => .ok (if s.text.isEmpty || isNull s.text then none else some s.text)
      | some tag =>
        if tag ≠ coreTag "null" then .ok (some s.text)
        else if isNull s.text then .ok none
        else .error (.wrongKind "null")

/-- An empty plain scalar, which stands for an empty collection. -/
def isNothing : Node → Bool
  | .scalar s => s.style = .plain && s.text.isEmpty
  | _ => false

/-- The items of a sequence. -/
def items (d : Document) (node : Node) : Except Fault (List Node) :=
  match d.resolve? node with
  | some (.sequence items) => .ok items
  | some node => if isNothing node then .ok [] else .error (.wrongKind "a sequence")
  | none => .error .undefinedAlias

/-- The entries of a mapping. -/
def entries (d : Document) (node : Node) : Except Fault (List (Node × Node)) :=
  match d.resolve? node with
  | some (.mapping entries) => .ok entries
  | some node => if isNothing node then .ok [] else .error (.wrongKind "a mapping")
  | none => .error .undefinedAlias

/-- The entries of the root; an empty document has none. -/
def rootEntries (d : Document) : Except Fault (List (Node × Node)) :=
  match d.root with
  | some node => d.entries node
  | none => .ok []

/-- A list of what `read` reads at each item. -/
def list {α : Type} (d : Document) (read : Node → Except Fault α) (node : Node) :
    Except Fault (List α) :=
  (d.items node).bind fun items => items.mapM read

/-- A mapping from texts to texts, in the order of the document. -/
def texts (d : Document) (node : Node) : Except Fault (List (String × String)) :=
  (d.entries node).bind fun entries => entries.mapM fun (key, value) =>
    match d.text key, d.text value with
    | .ok key, .ok value => .ok (key, value)
    | .error fault, _ => .error fault
    | _, .error fault => .error fault

end Document

/-- The known fields of a record that are present. -/
abbrev Fields := List (String × Node)

namespace Fields

/-- The known fields among entries. An unknown field is passed over; a known one must not
    be repeated. -/
def ofEntries (d : Document) (known : List String) :
    List (Node × Node) → Except Fault Fields
  | [] => .ok []
  | (key, value) :: rest =>
    match d.text key, ofEntries d known rest with
    | .error fault, _ => .error fault
    | _, .error fault => .error fault
    | .ok name, .ok fields =>
      if !known.contains name then .ok fields
      else if (fields.lookup name).isSome then .error (.duplicateField name)
      else .ok ((name, value) :: fields)

/-- What `read` reads from a field that must be present. -/
def get {α : Type} (fields : Fields) (name : String) (read : Node → Except Fault α) :
    Except Fault α :=
  match fields.lookup name with
  | some node => read node
  | none => .error (.missingField name)

/-- What `read` reads from a field, or `absent` where it is missing. -/
def getD {α : Type} (fields : Fields) (name : String) (absent : α)
    (read : Node → Except Fault α) : Except Fault α :=
  match fields.lookup name with
  | some node => read node
  | none => .ok absent

end Fields

end DeploymentBackup.Yaml
