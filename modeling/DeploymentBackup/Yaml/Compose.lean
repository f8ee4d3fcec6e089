import DeploymentBackup.Yaml.Node

namespace DeploymentBackup.Yaml

/-!
# From tokens to a document

Tokens are taken one at a time by a stack of open collections. Some nodes are implied: where
a token cannot start the node that is expected, an empty scalar stands there, and a sequence
that is not indented below its key ends where no dash follows.

* `Place` — where a node is expected, and which tokens mean that it is empty.
* `Opened` — a collection that is open.
* `Builder.take` — one token.
* `documentOf` — the document of a list of tokens.
-/

/-- Where a node is expected. -/
inductive Place
  /-- The root; a mark stands before it or not. -/
  | root (marked : Bool)
  | item
  /-- An item of a sequence that is not indented below its key. -/
  | flushItem
  | blockKey
  | blockValue
  | flowItem
  /-- The key of a pair written as an item of a flow sequence. -/
  | pairKey
  | pairValue
  | flowKey
  /-- An entry of a flow mapping that is a key alone. -/
  | bareKey
  | flowValue
deriving DecidableEq, Repr

namespace Place

/-- Block collections may start here. -/
def block : Place → Bool
  | .root _ | .item | .flushItem | .blockKey | .blockValue => true
  | _ => false

/-- A sequence may start here without being indented. -/
def flush : Place → Bool
  | .blockKey | .blockValue => true
  | _ => false

/-- A token that means that the node is empty. -/
def isEmptyAt : Place → Token → Bool
  | .root marked, t =>
    match t with
    | .version .. | .tagHandle .. | .documentStart | .documentEnd | .streamEnd => marked
    | _ => false
  | .item, t => t = .item || t = .blockEnd
  | .flushItem, t => t = .item || t = .key || t = .value || t = .blockEnd
  | .blockKey, t | .blockValue, t => t = .key || t = .value || t = .blockEnd
  | .flowItem, _ | .bareKey, _ => false
  | .pairKey, t => t = .value || t = .comma || t = .closeSequence
  | .pairValue, t => t = .comma || t = .closeSequence
  | .flowKey, t => t = .value || t = .comma || t = .closeMapping
  | .flowValue, t => t = .comma || t = .closeMapping

end Place

/-- The anchor and the tag before a node. The anchor is the serial of the node among the
    anchored ones. -/
structure Properties where
  anchor : Option Nat
  tag : Option String
deriving DecidableEq, Repr

namespace Properties

/-- No anchor and no tag. -/
def none : Properties := ⟨.none, .none⟩

/-- A token that goes on with the node behind these properties. -/
def goesOn (properties : Properties) (place : Place) : Token → Bool
  | .scalar .. | .openSequence | .openMapping => true
  | .blockSequence | .blockMapping => place.block
  | .item => place.flush
  | .anchor _ => properties.anchor.isNone
  | .tag .. => properties.tag.isNone
  | _ => false

end Properties

/-- A collection that is open, with what it holds so far, newest first. The key that waits
    for its value is kept apart. -/
inductive Opened
  | blockSequence (items : List Node)
  | flushSequence (items : List Node)
  | blockMapping (entries : List (Node × Node)) (key : Option Node)
  /-- In a sequence, `pair` is an item that is a pair, and the key of it. -/
  | flowSequence (items : List Node) (pair : Option (Option Node))
  /-- The entry that is read now may be a key alone. -/
  | flowMapping (entries : List (Node × Node)) (key : Option Node) (bare : Bool)

namespace Opened

/-- An empty scalar. -/
def emptyScalar (tag : Option String) : Node :=
  .scalar ⟨tag, .plain, ""⟩

/-- The collection with one more node. -/
def put (node : Node) : Opened → Opened
  | blockSequence items => blockSequence (node :: items)
  | flushSequence items => flushSequence (node :: items)
  | blockMapping entries none => blockMapping entries (some node)
  | blockMapping entries (some key) => blockMapping ((key, node) :: entries) none
  | flowSequence items none => flowSequence (node :: items) none
  | flowSequence items (some none) => flowSequence items (some (some node))
  | flowSequence items (some (some key)) => flowSequence (.mapping [(key, node)] :: items) none
  | flowMapping entries none true => flowMapping ((node, emptyScalar none) :: entries) none false
  | flowMapping entries none false => flowMapping entries (some node) false
  | flowMapping entries (some key) _ => flowMapping ((key, node) :: entries) none false

/-- The collection as a node. -/
def node : Opened → Node
  | blockSequence items | flushSequence items | flowSequence items _ => .sequence items.reverse
  | blockMapping entries _ | flowMapping entries _ _ => .mapping entries.reverse

/-- A key waits for its value. -/
def awaitsValue : Opened → Bool
  | blockMapping _ (some _) | flowSequence _ (some (some _)) | flowMapping _ (some _) _ => true
  | _ => false

/-- The place of the value that a key waits for. -/
def valuePlace : Opened → Place
  | blockMapping .. => .blockValue
  | flowSequence .. => .pairValue
  | _ => .flowValue

end Opened

/-- What is expected next. -/
inductive Expected
  /-- The start of a document, or of its directives. -/
  | start
  /-- More directives, or the mark behind them. -/
  | directives (versioned : Bool)
  | node (place : Place) (properties : Properties)
  /-- What the innermost collection says. In a flow collection, `ready` says that no comma
      is missing. -/
  | entry (ready : Bool)
  /-- The end of the document. -/
  | ending
  | nothing
deriving DecidableEq

/-- The state of building. Anchors have numbers by their names, and a number belongs to the
    node that bore it last. -/
structure Builder where
  expected : Expected
  opened : List (Option Nat × Opened)
  handles : List (String × String)
  /-- The numbers of the names. -/
  names : List (String × Nat)
  /-- The serials of the nodes that bear a number, newest first. -/
  bearers : List (Nat × Nat)
  /-- The complete nodes among those with an anchor, by serial. -/
  complete : List (Nat × Node)
  root : Option Node

namespace Builder

/-- Before the first token. -/
def start : Builder :=
  ⟨.start, [], [], [], [], [], none⟩

/-- Handles that every document knows. -/
def knownHandles : List (String × String) :=
  [("!", "!"), ("!!", "tag:yaml.org,2002:")]

/-- Ready for the node at `place`. -/
def expect (b : Builder) (place : Place) : Builder :=
  { b with expected := .node place .none }

/-- Puts a complete node where one was expected. -/
def put (b : Builder) (anchor : Option Nat) (node : Node) : Builder :=
  let complete := match anchor with
    | some serial => (serial, node) :: b.complete
    | none => b.complete
  match b.opened with
  | [] => { b with complete := complete, root := some node, expected := .ending }
  | (outer, top) :: rest =>
    { b with
      complete := complete, opened := (outer, top.put node) :: rest, expected := .entry false }

/-- Completes the innermost open collection. -/
def close (b : Builder) : Builder :=
  match b.opened with
  | [] => b
  | (anchor, top) :: rest => { b with opened := rest }.put anchor top.node

/-- Opens a collection. -/
def openCollection (b : Builder) (properties : Properties) (collection : Opened) : Builder :=
  { b with
    opened := (properties.anchor, collection) :: b.opened, expected := .entry true }

/-- Changes the innermost open collection. -/
def setTop (b : Builder) (top : Opened) : Builder :=
  match b.opened with
  | [] => b
  | (anchor, _) :: rest => { b with opened := (anchor, top) :: rest }

/-! ### What a token implies -/

/-- Fills the place of an expected node that is empty. The empty key of a pair is left to
    its token. -/
def fillNode (t : Token) (b : Builder) : Builder :=
  match b.expected with
  | .node place properties =>
    if properties = .none then
      if place.isEmptyAt t && place ≠ .pairKey then b.put none (Opened.emptyScalar none) else b
    else if properties.goesOn place t then b
    else b.put properties.anchor (Opened.emptyScalar properties.tag)
  | _ => b

/-- Ends a sequence that is not indented where no dash follows. -/
def endFlush (t : Token) (b : Builder) : Builder :=
  match b.expected, b.opened with
  | .entry _, (_, .flushSequence _) :: _ => if t = .item then b else b.close
  | _, _ => b

/-- Gives an empty value to a key that has none. -/
def fillValue (t : Token) (b : Builder) : Builder :=
  match b.expected, b.opened with
  | .entry _, (_, top) :: _ =>
    if top.awaitsValue && t ≠ .value then b.put none (Opened.emptyScalar none) else b
  | _, _ => b

/-! ### Tokens -/

/-- A directive, or the mark that ends the directives. -/
def takeDirective (b : Builder) (versioned : Bool) : Token → Except Fault Builder
  | .version major minor =>
    if !versioned && major = 1 && (minor = 1 || minor = 2) then
      .ok { b with expected := .directives true }
    else .error .badDirective
  | .tagHandle handle stem =>
    if (b.handles.lookup handle).isSome then .error .badDirective
    else .ok { b with
      expected := .directives versioned, handles := b.handles ++ [(handle, stem)] }
  | .documentStart => .ok (b.expect (.root true))
  | _ => .error .unexpectedToken

/-- The tag that a handle and a suffix spell. -/
def tagOf (b : Builder) (handle suffix : String) : Except Fault String :=
  if handle.isEmpty then .ok suffix
  else
    match (b.handles ++ knownHandles).lookup handle with
    | some stem => .ok (stem ++ suffix)
    | none => .error .undefinedHandle

/-- Names the node that follows; the name is given a number, the number of names so far. -/
def nameAnchor (b : Builder) (name : String) : Builder × Nat :=
  let number := b.names.length
  let serial := b.bearers.length
  ({ b with
    names := (name, number) :: b.names.filter (·.1 ≠ name),
    bearers := (number, serial) :: b.bearers },
    serial)

/-- A scalar, whose tag may be the mark that stands for no tag. -/
def scalarNode (tag : Option String) (style : Style) (text : String) : Node :=
  .scalar ⟨if tag = some "!" then none else tag, style, text⟩

/-- A token where a node is expected. -/
def takeNode (b : Builder) (place : Place) (properties : Properties) :
    Token → Except Fault Builder
  | .alias name =>
    match b.names.lookup name with
    | some number =>
      if properties = .none then .ok (b.put none (.alias number)) else .error .unexpectedToken
    | none => .error .undefinedAlias
  | .anchor name =>
    let (b, serial) := b.nameAnchor name
    .ok { b with expected := .node place { properties with anchor := some serial } }
  | .tag handle suffix =>
    (b.tagOf handle suffix).map fun tag =>
      { b with expected := .node place { properties with tag := some tag } }
  | .scalar style text => .ok (b.put properties.anchor (scalarNode properties.tag style text))
  | .openSequence => .ok (b.openCollection properties (.flowSequence [] none))
  | .openMapping => .ok (b.openCollection properties (.flowMapping [] none false))
  | .blockSequence =>
    if place.block then .ok (b.openCollection properties (.blockSequence []))
    else .error .unexpectedToken
  | .blockMapping =>
    if place.block then .ok (b.openCollection properties (.blockMapping [] none))
    else .error .unexpectedToken
  | .item =>
    -- This dash is that of the first item.
    if place.flush then
      .ok ((b.openCollection properties (.flushSequence [])).expect .flushItem)
    else .error .unexpectedToken
  | t =>
    -- The token that shows that the key of a pair is empty is passed over.
    if place = .pairKey && place.isEmptyAt t then .ok (b.put none (Opened.emptyScalar none))
    else .error .unexpectedToken

/-- A token between the entries of the innermost collection. -/
def takeEntry (b : Builder) (ready : Bool) (top : Opened) (t : Token) : Except Fault Builder :=
  if top.awaitsValue then
    if t = .value then .ok (b.expect top.valuePlace) else .error .unexpectedToken
  else
    match top with
    | .blockSequence _ =>
      match t with
      | .item => .ok (b.expect .item)
      | .blockEnd => .ok b.close
      | _ => .error .unexpectedToken
    | .flushSequence _ =>
      match t with
      | .item => .ok (b.expect .flushItem)
      | _ => .error .unexpectedToken
    | .blockMapping _ _ =>
      match t with
      | .key => .ok (b.expect .blockKey)
      | .blockEnd => .ok b.close
      | _ => .error .unexpectedToken
    | .flowSequence items _ =>
      match ready, t with
      | _, .closeSequence => .ok b.close
      | false, .comma => .ok { b with expected := .entry true }
      | false, _ => .error .unexpectedToken
      | true, .key => .ok ((b.setTop (.flowSequence items (some none))).expect .pairKey)
      | true, t => b.takeNode .flowItem .none t
    | .flowMapping entries key _ =>
      match ready, t with
      | _, .closeMapping => .ok b.close
      | false, .comma => .ok { b with expected := .entry true }
      | false, _ => .error .unexpectedToken
      | true, .key => .ok (b.expect .flowKey)
      | true, t => (b.setTop (.flowMapping entries key true)).takeNode .bareKey .none t

/-- One token, after what it implies. -/
def take (b : Builder) (t : Token) : Except Fault Builder :=
  let b := fillValue t (endFlush t (fillNode t b))
  match b.expected, b.opened with
  | .start, _ =>
    match t with
    | .version .. | .tagHandle .. | .documentStart => b.takeDirective false t
    | .streamEnd => .ok { b with expected := .nothing }
    | t => b.takeNode (.root false) .none t
  | .directives versioned, _ => b.takeDirective versioned t
  | .node place properties, _ => b.takeNode place properties t
  | .entry ready, (_, top) :: _ => b.takeEntry ready top t
  | .entry _, [] => .error .unexpectedToken
  | .ending, _ =>
    match t with
    | .documentEnd => .ok b
    | .streamEnd => .ok { b with expected := .nothing }
    | .documentStart | .version .. | .tagHandle .. => .error .severalDocuments
    | _ => .error .unexpectedToken
  | .nothing, _ => .error .unexpectedToken

/-- The tokens of a list, in order. -/
def takeAll (b : Builder) : List Token → Except Fault Builder
  | [] => .ok b
  | t :: ts =>
    match b.take t with
    | .ok b => b.takeAll ts
    | .error fault => .error fault

/-- The document, with the nodes that bear the numbers of anchors. -/
def document (b : Builder) : Document :=
  ⟨b.root, b.bearers.filterMap fun (number, serial) =>
    (b.complete.lookup serial).map (number, ·)⟩

end Builder

/-- The document of a list of tokens, which is the only one. -/
def documentOf (ts : List Token) : Except Fault Document :=
  (Builder.start.takeAll ts).map Builder.document

end DeploymentBackup.Yaml
