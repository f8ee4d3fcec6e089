import DeploymentBackup.Yaml.Property
import DeploymentBackup.Yaml.Scalar.Block
import DeploymentBackup.Yaml.Scalar.Plain
import DeploymentBackup.Yaml.Scalar.Quoted

namespace DeploymentBackup.Yaml

/-!
# The tokens of a text

The text is read once, from the front. Two things need memory beside the tokens read so
far. The indentation of the open block collections says which of them a line closes. And a
scalar may turn out to be a key only when the colon behind it is read, so the place where it
started is kept, for the innermost collection and for each one around it, until it is too far
away.

* `SimpleKey` — a place that may turn out to start a key.
* `Reading` — how far a text has been read.
* `Reading.step` — one token, with the tokens that indentation implies.
* `tokens` — the tokens of a text, the last of which is the end of the stream.
-/

/-- A place that may turn out to start a key: the number of tokens before it and its
    position. Where every line must start with a key, it is required to be one. -/
structure SimpleKey where
  before : Nat
  position : Position
  required : Bool
deriving DecidableEq, Repr

/-- How far a text has been read. The tokens are kept newest first. The margin is the least
    column of the contents of the innermost block collection, and `0` outside of all. The
    outer keys are those of the collections around the innermost one, so their number is
    the depth of flow collections. -/
structure Reading where
  rest : List Char
  position : Position
  tokens : List Token
  margin : Nat
  margins : List Nat
  keyAllowed : Bool
  pending : Option SimpleKey
  outer : List (Option SimpleKey)

namespace Reading

/-- Before the first character. Marks of the byte order are skipped: one in front of the
    text, and one that stands at its start. -/
def start (cs : List Char) : Reading :=
  let cs := match cs with
    | '\uFEFF' :: rest => rest
    | cs => cs
  let (cs, position) := match cs with
    | '\uFEFF' :: rest => (rest, ⟨1, 0, 1⟩)
    | cs => (cs, ⟨0, 0, 0⟩)
  ⟨cs, position, [], 0, [], true, none, []⟩

/-- Inside a flow collection. -/
def flow (s : Reading) : Bool :=
  ! s.outer.isEmpty

/-- Goes on behind `taken`, which is the front of the text. -/
def move (s : Reading) (taken rest : List Char) : Reading :=
  { s with rest := rest, position := s.position.after taken }

/-- Goes on behind the first `n` characters. -/
def skip (s : Reading) (n : Nat) : Reading :=
  s.move (s.rest.take n) (s.rest.drop n)

/-- Adds a token at the end. -/
def emit (s : Reading) (token : Token) : Reading :=
  { s with tokens := token :: s.tokens }

/-! ### Between the tokens -/

/-- Blanks, comments and line breaks up to the next token: whether a key may start there,
    its position, and the text from there on. Tabs are skipped only where no key may
    start. -/
def gap (flow : Bool) : (comment allowed : Bool) → Position → List Char →
    Bool × Position × List Char
  | _, allowed, p, [] => (allowed, p, [])
  | _, allowed, p, '\r' :: '\n' :: rest =>
    gap flow false (allowed || !flow) ⟨p.index + 2, p.line + 1, 0⟩ rest
  | comment, allowed, p, c :: rest =>
    if isBreak c then gap flow false (allowed || !flow) ⟨p.index + 1, p.line + 1, 0⟩ rest
    else if comment || c = '#' then
      gap flow true allowed ⟨p.index + 1, p.line, p.column + 1⟩ rest
    else if c = ' ' || (c = '\t' && (flow || !allowed)) then
      gap flow false allowed ⟨p.index + 1, p.line, p.column + 1⟩ rest
    else (allowed, p, c :: rest)

/-- Goes to the next token. -/
def toToken (s : Reading) : Reading :=
  let (allowed, position, rest) := gap s.flow false s.keyAllowed s.position s.rest
  { s with keyAllowed := allowed, position := position, rest := rest }

/-- A key must be on one line and start at most 1024 characters before its colon. A place
    that is too far away is given up, unless a key is required there. -/
def giveUp (p : Position) : Option SimpleKey → Except Fault (Option SimpleKey)
  | none => .ok none
  | some key =>
    if key.position.line < p.line || key.position.index + 1024 < p.index then
      if key.required then .error .missingColon else .ok none
    else .ok (some key)

/-- Gives up the places that are too far away. -/
def giveUpKeys (s : Reading) : Except Fault Reading :=
  match giveUp s.position s.pending, s.outer.mapM (giveUp s.position) with
  | .ok pending, .ok outer => .ok { s with pending := pending, outer := outer }
  | .error fault, _ => .error fault
  | _, .error fault => .error fault

/-- The margins that stay open when those above `limit` are closed, and the number of the
    closed ones. -/
def closing (limit : Nat) : (margin : Nat) → List Nat → Nat × List Nat × Nat
  | margin, [] => (margin, [], 0)
  | margin, m :: ms =>
    if limit < margin then
      let (margin, ms, n) := closing limit m ms
      (margin, ms, n + 1)
    else (margin, m :: ms, 0)

/-- Closes the block collections whose margin is above `limit`. -/
def closeBlocks (s : Reading) (limit : Nat) : Reading :=
  if s.flow then s
  else
    let (margin, margins, n) := closing limit s.margin s.margins
    { s with
      margin := margin, margins := margins,
      tokens := List.replicate n .blockEnd ++ s.tokens }

/-! ### Keys -/

/-- Gives up the place kept for the innermost collection. -/
def dropKey (s : Reading) : Except Fault Reading :=
  if s.pending.any (·.required) then .error .missingColon else .ok { s with pending := none }

/-- Keeps this place, when a key may start here. -/
def keepKey (s : Reading) : Except Fault Reading :=
  if s.keyAllowed then
    let required := !s.flow && s.margin = s.position.column + 1
    s.dropKey.map fun s =>
      { s with pending := some ⟨s.tokens.length, s.position, required⟩ }
  else .ok s

/-- Opens a block collection at a column, unless it is open already. -/
def openBlock (s : Reading) (column : Nat) (token : Token) : Reading :=
  if !s.flow && s.margin < column + 1 then
    { s.emit token with margin := column + 1, margins := s.margin :: s.margins }
  else s

/-- Makes the kept place a key: the key token, and the start of the mapping that it opens,
    go before the tokens read since. -/
def insertKey (s : Reading) (key : SimpleKey) : Reading :=
  let since := s.tokens.take (s.tokens.length - key.before)
  let opened := { s with tokens := s.tokens.drop since.length }.openBlock
    key.position.column .blockMapping
  { opened with tokens := since ++ .key :: opened.tokens, pending := none }

/-! ### The tokens -/

/-- An indicator of a block collection, which opens the collection if need be. -/
def blockIndicator (s : Reading) (opening token : Token) (allowed : Bool) :
    Except Fault Reading :=
  if !s.flow && !s.keyAllowed then .error .misplacedEntry
  else (s.openBlock s.position.column opening).dropKey.map fun s =>
    { s.skip 1 with tokens := token :: s.tokens, keyAllowed := allowed }

/-- The colon before a value. -/
def valueIndicator (s : Reading) : Except Fault Reading :=
  match s.pending with
  | some key => .ok { (s.insertKey key).skip 1 with
      tokens := .value :: (s.insertKey key).tokens, keyAllowed := false }
  | none => s.blockIndicator .blockMapping .value (!s.flow)

/-- The start of a flow collection. -/
def openFlow (s : Reading) (token : Token) : Except Fault Reading :=
  s.keepKey.map fun s =>
    { (s.skip 1).emit token with
      outer := s.pending :: s.outer, pending := none, keyAllowed := true }

/-- The end of a flow collection. -/
def closeFlow (s : Reading) (token : Token) : Except Fault Reading :=
  s.dropKey.map fun s =>
    let s := (s.skip 1).emit token
    match s.outer with
    | key :: outer => { s with pending := key, outer := outer, keyAllowed := false }
    | [] => { s with keyAllowed := false }

/-- The comma between entries of a flow collection. -/
def commaIndicator (s : Reading) : Except Fault Reading :=
  s.dropKey.map fun s => { (s.skip 1).emit .comma with keyAllowed := true }

/-- A document mark or a directive ends every block collection. -/
def endBlocks (s : Reading) : Except Fault Reading :=
  (s.closeBlocks 0).dropKey.map fun s => { s with keyAllowed := false }

/-- A mark of three characters. -/
def documentMark (s : Reading) (token : Token) : Except Fault Reading :=
  s.endBlocks.map fun s => (s.skip 3).emit token

/-- Goes on behind a part of the text that ends where `rest` starts, with its token. -/
def emitUpTo (s : Reading) (token : Token) (rest : List Char) : Reading :=
  (s.move (s.rest.take (s.rest.length - rest.length)) rest).emit token

/-- A directive. -/
def directive (s : Reading) : Except Fault Reading :=
  match s.endBlocks, readDirective s.rest with
  | .ok s, .ok (token, rest) => .ok (s.emitUpTo token rest)
  | .error fault, _ => .error fault
  | _, .error fault => .error fault

/-- An anchor or an alias. -/
def anchor (s : Reading) (token : String → Token) : Except Fault Reading :=
  match s.keepKey, readAnchor s.rest.tail with
  | .ok s, .ok (name, rest) => .ok { s.emitUpTo (token name) rest with keyAllowed := false }
  | .error fault, _ => .error fault
  | _, .error fault => .error fault

/-- A tag. -/
def tag (s : Reading) : Except Fault Reading :=
  match s.keepKey, readTag s.flow s.rest with
  | .ok s, .ok (token, rest) => .ok { s.emitUpTo token rest with keyAllowed := false }
  | .error fault, _ => .error fault
  | _, .error fault => .error fault

/-- A block scalar. -/
def blockScalar (s : Reading) (style : Style) : Except Fault Reading :=
  let line := s.rest.tail.takeWhile (! isBreak ·)
  let behind := s.rest.tail.drop line.length
  let ending := breakChars behind
  let body := behind.drop ending.length
  match s.dropKey, BlockHeader.read? line with
  | .error fault, _ => .error fault
  | _, none => .error .badBlockHeader
  | .ok s, some header =>
    match header.indentation s.margin body with
    | .error fault => .error fault
    | .ok indent =>
      match blockLines indent body with
      | .error fault => .error fault
      | .ok (lines, taken) =>
        let text := header.join (style = .folded) lines
        let s := s.move (s.rest.take 1 ++ line ++ ending ++ taken) (body.drop taken.length)
        .ok { s.emit (.scalar style (String.ofList text)) with keyAllowed := true }

/-- A quoted scalar. -/
def quotedScalar (s : Reading) (style : Style)
    (body? : List Char → Option (List Char × List Char))
    (text : List Char → Except Fault (List Char)) : Except Fault Reading :=
  match s.keepKey, body? s.rest.tail with
  | .error fault, _ => .error fault
  | _, none => .error .unclosedQuote
  | .ok s, some (body, rest) =>
    match text body with
    | .error fault => .error fault
    | .ok text =>
      let s := s.move (s.rest.take 1 ++ body ++ s.rest.take 1) rest
      .ok { s.emit (.scalar style (String.ofList text)) with keyAllowed := false }

/-- A plain scalar. -/
def plainScalar (s : Reading) : Except Fault Reading :=
  match s.keepKey, Plain.read ⟨s.flow, s.margin⟩ s.rest with
  | .ok s, .ok plain =>
    let s := s.move plain.taken (s.rest.drop plain.taken.length)
    .ok { s.emit (.scalar .plain (String.ofList plain.text)) with keyAllowed := plain.newLine }
  | .error fault, _ => .error fault
  | _, .error fault => .error fault

/-- The indicators that start something other than a plain scalar. -/
def isIndicator (c : Char) : Bool :=
  "-?:,[]\x7b\x7d#&*!|>'\"%@\x60".toList.contains c

/-- A plain scalar may start here. A dash, and in a block collection a question mark or a
    colon, start one when no blank follows. -/
def startsPlain (flow : Bool) (c : Char) (rest : List Char) : Bool :=
  !(isGap c || isIndicator c) || (c = '-' && !rest.head?.any isSpace) ||
    (!flow && (c = '?' || c = ':') && !atGap rest)

/-- The token whose first character is `c`. -/
def tokenAt (s : Reading) (c : Char) (rest : List Char) : Except Fault Reading :=
  let column := s.position.column
  if column = 0 && c = '%' then s.directive
  else if column = 0 && isMark true (c :: rest) then
    s.documentMark (if c = '-' then .documentStart else .documentEnd)
  else if c = '[' then s.openFlow .openSequence
  else if c = '{' then s.openFlow .openMapping
  else if c = ']' then s.closeFlow .closeSequence
  else if c = '}' then s.closeFlow .closeMapping
  else if c = ',' then s.commaIndicator
  else if c = '-' && atGap rest then s.blockIndicator .blockSequence .item true
  else if c = '?' && (s.flow || atGap rest) then s.blockIndicator .blockMapping .key (!s.flow)
  else if c = ':' && (s.flow || atGap rest) then s.valueIndicator
  else if c = '*' then s.anchor .alias
  else if c = '&' then s.anchor .anchor
  else if c = '!' then s.tag
  else if c = '|' && !s.flow then s.blockScalar .literal
  else if c = '>' && !s.flow then s.blockScalar .folded
  else if c = '\'' then s.quotedScalar .single singleBody? singleText
  else if c = '"' then s.quotedScalar .double doubleBody? doubleText
  else if startsPlain s.flow c rest then s.plainScalar
  else .error .unexpectedCharacter

/-- The tokens at the end of the text. -/
def finish (s : Reading) : Except Fault (List Token) :=
  (s.closeBlocks 0).dropKey.map fun s => (s.emit .streamEnd).tokens.reverse

/-- The next token and those that its indentation implies, or all tokens at the end of the
    text. -/
def step (s : Reading) : Except Fault (Reading ⊕ List Token) :=
  match s.toToken.giveUpKeys with
  | .error fault => .error fault
  | .ok s =>
    let s := s.closeBlocks (s.position.column + 1)
    match s.rest with
    | [] => s.finish.map .inr
    | c :: rest => (s.tokenAt c rest).map .inl

/-- The tokens from a state on. Every step but the last takes at least one character, so the
    number of characters bounds the steps. -/
def run : (fuel : Nat) → Reading → Except Fault (List Token)
  | 0, _ => .error .unexpectedCharacter
  | fuel + 1, s =>
    match s.step with
    | .error fault => .error fault
    | .ok (.inl s) => run fuel s
    | .ok (.inr tokens) => .ok tokens

end Reading

/-- The tokens of a text. -/
def tokens (text : String) : Except Fault (List Token) :=
  let cs := text.toList
  if cs.all isAllowed then (Reading.start cs).run (cs.length + 1) else .error .control

end DeploymentBackup.Yaml
