import DeploymentBackup.Yaml.Token

namespace DeploymentBackup.Yaml

/-!
# Nodes

The tree of a document. Scalars are not interpreted: what a scalar means depends on what the
reader of the document expects there.

* `Scalar`, `Node` — a scalar and a tree.
* `Document` — a tree, or nothing, with the nodes that its aliases stand for.
* `Document.resolve?` — a node without an alias at its root.
-/

/-- A scalar: its tag if it has one, how it is written, and its text. -/
structure Scalar where
  tag : Option String
  style : Style
  text : String
deriving DecidableEq, Repr

/-- A node of a document. An alias stands for the node with the anchor of this number. -/
inductive Node
  | scalar (value : Scalar)
  | sequence (items : List Node)
  | mapping (entries : List (Node × Node))
  | alias (anchor : Nat)
deriving Repr

/-- The tree of a document, which is missing in an empty text, and the anchored nodes. -/
structure Document where
  root : Option Node
  anchored : List (Nat × Node)

/-- The node itself, or the one that an alias stands for. -/
def Document.resolve? (d : Document) : Node → Option Node
  | .alias anchor => d.anchored.lookup anchor
  | node => some node

end DeploymentBackup.Yaml
