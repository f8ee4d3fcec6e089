import DeploymentBackup.Shell.Arithmetic
import DeploymentBackup.Shell.Pattern
import DeploymentBackup.Shell.Session

namespace DeploymentBackup.Shell

open Text

/-!
# Expansion of words

Before a command is run, parameters, arithmetic and substituted commands in its words are
replaced by their values, and what was not quoted is cut into fields at blanks.

* `Session.parameter` — the value of a parameter.
* `pieces` — the characters and cuts that a word stands for.
* `fields`, `text` — the fields of a word, or its text uncut.
-/

/-- A character of an expanded word, or a cut. -/
inductive Piece
  | char (c : Marked)
  /-- Something quoted is here, and be it empty. -/
  | mark
  /-- A cut at blanks. -/
  | gap
  /-- A cut between arguments, which keeps empty ones. -/
  | next
deriving DecidableEq, Repr

/-- A parameter with what is done to its value: another text in its place, or an end cut
    off. -/
structure Expansion where
  name : String
  operator : String
  operand : List Char

/-- The operators behind the name of a parameter, longer ones first. -/
def expansionOperators : List String :=
  [":-", ":+", ":=", ":?", "##", "%%", "-", "+", "=", "?", "#", "%"]

/-- Reads what stands between the braces of a parameter. -/
def Expansion.of (text : String) : Expansion :=
  let cs := text.toList
  let name := match cs with
    | c :: _ => if isNameChar c then cs.takeWhile isNameChar else [c]
    | [] => []
  let behind := cs.drop name.length
  match expansionOperators.find? fun op => op.toList.isPrefixOf behind with
  | some op => ⟨String.ofList name, op, behind.drop op.length⟩
  | none => ⟨String.ofList name, "", []⟩

namespace Session

/-- The value of a parameter that is one text; none when it is not set. -/
def value? (s : Session) (name : String) : Option String :=
  match name with
  | "#" => some (toString s.arguments.length)
  | "?" => some (toString s.status)
  | "$" => some processNumber
  | "0" => some s.name
  | "@" | "*" => if s.arguments.isEmpty then none else some (" ".intercalate s.arguments)
  | "-" | "!" => some ""
  | name =>
    match name.toNat? with
    | some n => s.arguments[n - 1]?
    | none => s.assigned? name

/-- The shortest or longest front or end of a text that fits a pattern is cut off. -/
def cut (operator : String) (pattern : List Marked) (text : List Char) : List Char :=
  let es := elements pattern
  let sizes := List.range (text.length + 1)
  let fitsFront (n : Nat) := fits es (text.take n)
  let fitsEnd (n : Nat) := fits es (text.drop n)
  match operator with
  | "#" => (sizes.find? fitsFront).elim text text.drop
  | "##" => (sizes.reverse.find? fitsFront).elim text text.drop
  | "%" => (sizes.reverse.find? fitsEnd).elim text text.take
  | _ => (sizes.find? fitsEnd).elim text text.take

/-- The value of a parameter with what is done to it. -/
def expanded (s : Session) (e : Expansion) : String :=
  let value := s.value? e.name
  let operand := String.ofList e.operand
  let filled := value.filter (· ≠ "")
  match e.operator with
  | "" => value.getD ""
  | ":-" | ":=" | ":?" => filled.getD operand
  | "-" | "=" | "?" => value.getD operand
  | ":+" => if filled.isSome then operand else ""
  | "+" => if value.isSome then operand else ""
  | op => String.ofList (cut op (e.operand.map (false, ·)) (value.getD "").toList)

end Session

/-- The pieces of a value: it is cut at blanks unless it was quoted. -/
def valuePieces (quoted : Bool) (value : String) : List Piece :=
  if quoted then value.toList.map fun c => .char (true, c)
  else value.toList.map fun c =>
    if c = ' ' || c = '\t' || c = '\n' then .gap else .char (false, c)

/-- The pieces of all arguments, each a field of its own. -/
def argumentPieces (quoted : Bool) : List String → List Piece
  | [] => []
  | [a] => .mark :: valuePieces quoted a
  | a :: rest => .mark :: valuePieces quoted a ++ .next :: argumentPieces quoted rest

/-- The output of a command as a value: without line ends at its end. -/
def substituted (output : Bytes) : String :=
  String.ofList (dropEndWhile (· = '\n') (decodeLossy output).toList)

/-- A command run for its output. -/
abbrev Substitute := String → Session → Bytes × Session

/-- The parameters in an arithmetic expression are replaced before it is read. -/
def fillParameters (s : Session) : (fuel : Nat) → List Char → List Char
  | 0, cs => cs
  | _, [] => []
  | fuel + 1, '$' :: rest =>
    match expansion? true rest with
    | some (.parameter _ name, rest) =>
      (s.expanded (.of name)).toList ++ fillParameters s fuel rest
    | some (.length _ name, rest) =>
      (toString ((s.value? name).getD "").utf8ByteSize).toList ++ fillParameters s fuel rest
    | _ => '$' :: fillParameters s fuel rest
  | fuel + 1, c :: rest => c :: fillParameters s fuel rest

/-- The pieces that a part of a word stands for. -/
def partPieces (run : Substitute) (s : Session) : Part → List Piece × Session
  | .literal quoted [] => (if quoted then [.mark] else [], s)
  | .literal quoted text => (text.map fun c => .char (quoted, c), s)
  | .parameter quoted "@" => (argumentPieces quoted s.arguments, s)
  | .parameter false "*" => (argumentPieces false s.arguments, s)
  | .parameter quoted name => (valuePieces quoted (s.expanded (.of name)), s)
  | .length quoted name =>
    (valuePieces quoted (toString ((s.value? name).getD "").utf8ByteSize), s)
  | .arithmetic quoted text =>
    let n := evaluate? (fun name => (s.value? name).getD "")
      (fillParameters s text.length text)
    (valuePieces quoted ((n.map toString).getD ""), s)
  | .substitution quoted text =>
    let (output, s) := run (String.ofList text) s
    (valuePieces quoted (substituted output), s)

/-- The pieces that a word stands for. -/
def pieces (run : Substitute) (s : Session) : Word → List Piece × Session
  | [] => ([], s)
  | part :: rest =>
    let (first, s) := partPieces run s part
    let (more, s) := pieces run s rest
    (first ++ more, s)

/-- The fields between the cuts; `field` is what was read of the current one, last character
    first, if it has begun. -/
def assemble (field : Option (List Marked)) : List Piece → List (List Marked)
  | [] => field.toList.map List.reverse
  | .char c :: rest => assemble (some (c :: field.getD [])) rest
  | .mark :: rest => assemble (some (field.getD [])) rest
  | .gap :: rest => field.toList.map List.reverse ++ assemble none rest
  | .next :: rest => (field.getD []).reverse :: assemble none rest

/-- A home directory in place of a tilde at the front of a word. -/
def tilde (s : Session) : Word → Word
  | .literal false ('~' :: rest) :: more =>
    match rest, s.assigned? "HOME" with
    | [], some home => .literal true home.toList :: more
    | '/' :: rest, some home => .literal true home.toList :: .literal false ('/' :: rest) :: more
    | _, _ => .literal false ('~' :: rest) :: more
  | w => w

/-- The fields of a word. -/
def fields (run : Substitute) (s : Session) (w : Word) : List (List Marked) × Session :=
  let (ps, s) := pieces run s (tilde s w)
  (assemble none ps, s)

/-- The text of a field. -/
def plain (field : List Marked) : String :=
  String.ofList (field.map (·.2))

/-- The text of a word that is not cut into fields, with its marks. -/
def uncut (run : Substitute) (s : Session) (w : Word) : List Marked × Session :=
  let quote : Part → Part
    | .parameter _ "@" => .parameter true "*"
    | .parameter _ name => .parameter true name
    | .length _ name => .length true name
    | .arithmetic _ text => .arithmetic true text
    | .substitution _ text => .substitution true text
    | part => part
  let (ps, s) := pieces run s ((tilde s w).map quote)
  (ps.filterMap fun
    | .char c => some c
    | .gap | .next => some (true, ' ')
    | .mark => none, s)

/-- The text of a word that is not cut into fields. -/
def text (run : Substitute) (s : Session) (w : Word) : String × Session :=
  let (cs, s) := uncut run s w
  (plain cs, s)

/-- The fields of words in order. -/
def allFields (run : Substitute) (s : Session) : List Word → List String × Session
  | [] => ([], s)
  | w :: rest =>
    let (first, s) := fields run s w
    let (more, s) := allFields run s rest
    (first.map plain ++ more, s)

end DeploymentBackup.Shell
