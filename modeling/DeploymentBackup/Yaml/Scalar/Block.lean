import DeploymentBackup.Yaml.Character
import DeploymentBackup.Yaml.Token

namespace DeploymentBackup.Yaml

/-!
# Block scalars

A block scalar takes the lines behind its header that are indented enough. In the literal
style its line breaks stay as they are; in the folded style a break between two lines that
do not start with a blank reads as a space. The header says what happens to the breaks at
the end, and may give the indentation, which is otherwise that of the first line that is
not blank.

* `BlockHeader.read?` — the header line.
* `blockLines` — the lines that belong to the scalar.
* `BlockHeader.join` — the text of these lines.
-/

/-- What happens to the line breaks at the end of a block scalar. -/
inductive Chomping
  /-- The break of the last line stays, the ones behind it are dropped. -/
  | clip
  /-- All are dropped. -/
  | strip
  /-- All stay. -/
  | keep
deriving DecidableEq, Repr

/-- The header of a block scalar behind its indicator. -/
structure BlockHeader where
  chomping : Chomping
  indent : Option Nat
deriving DecidableEq, Repr

/-- The chomping that a character asks for. -/
def Chomping.of? : Char → Option Chomping
  | '+' => some .keep
  | '-' => some .strip
  | _ => none

/-- The value of a decimal digit. -/
def digit? (c : Char) : Option Nat :=
  if c.isDigit then some (c.toNat - '0'.toNat) else none

/-- Takes what `read` accepts from the front of a line. -/
def takeFront {α : Type} (read : Char → Option α) : List Char → Option α × List Char
  | [] => (none, [])
  | c :: rest =>
    match read c with
    | some a => (some a, rest)
    | none => (none, c :: rest)

/-- Reads the header line behind the indicator: a chomping and a digit in either order,
    blanks, a comment. -/
def BlockHeader.read? (line : List Char) : Option BlockHeader :=
  let (before, rest) := takeFront Chomping.of? line
  let (indent, rest) := takeFront digit? rest
  let (after, rest) :=
    if before.isNone && indent.isSome then takeFront Chomping.of? rest else (none, rest)
  let rest := rest.dropWhile isSpace
  if indent = some 0 ∨ (rest ≠ [] ∧ rest.head? ≠ some '#') then none
  else some ⟨(before.or after).getD .clip, indent⟩

/-- A line of a block scalar: its text behind the indentation, empty for a blank line, and
    what its break reads as; the last line may end with the document instead. -/
structure BlockLine where
  text : List Char
  ending : List Char
deriving DecidableEq, Repr

/-- The lines of at least `indent` columns and the blank ones between them, and the part of
    the text that they take. -/
def blockLines (indent : Nat) (cs : List Char) : Except Fault (List BlockLine × List Char) :=
  let spaces := (cs.takeWhile (· = ' ')).take indent
  let after := cs.drop spaces.length
  if spaces.length < indent && after.head? = some '\t' then .error .tabIndentation
  else
    match _h : lineBreak? after with
    | some (b, rest) =>
      (blockLines indent rest).map fun (lines, taken) =>
        (⟨[], [b]⟩ :: lines, spaces ++ breakChars after ++ taken)
    | none =>
      if spaces.length < indent || after.isEmpty then .ok ([], [])
      else
        let text := after.takeWhile (! isBreak ·)
        match _h : lineBreak? (after.drop text.length) with
        | some (b, rest) =>
          (blockLines indent rest).map fun (lines, taken) =>
            (⟨text, [b]⟩ :: lines,
              spaces ++ text ++ breakChars (after.drop text.length) ++ taken)
        | none => .ok ([⟨text, []⟩], cs)
termination_by cs.length
decreasing_by
  · have := lineBreak?_length _h
    simp only [after, List.length_drop] at this
    omega
  · have := lineBreak?_length _h
    simp only [after, List.length_drop] at this
    omega

/-- The widest indentation of the blank lines at the front and of the first line that is
    not blank. -/
def widestIndent (cs : List Char) : Except Fault Nat :=
  let spaces := cs.takeWhile (· = ' ')
  let after := cs.drop spaces.length
  if after.head? = some '\t' then .error .tabIndentation
  else
    match _h : lineBreak? after with
    | some (_, rest) => (widestIndent rest).map (max spaces.length)
    | none => .ok spaces.length
termination_by cs.length
decreasing_by
  have := lineBreak?_length _h
  simp only [after, List.length_drop] at this
  omega

/-- The indentation of the lines of a scalar. `margin` is the least column of the contents
    of the collection around it. -/
def BlockHeader.indentation (header : BlockHeader) (margin : Nat) (cs : List Char) :
    Except Fault Nat :=
  match header.indent with
  | some n => .ok (margin - 1 + n)
  | none => (widestIndent cs).map fun widest => max widest (max margin 1)

/-- Where the joining of lines stands: the break of the last line with text, the breaks of
    the blank lines behind it, and whether that line started with a blank. -/
structure LineJoin where
  ending : List Char
  blankEndings : List Char
  indented : Bool

/-- How the breaks before a line read. -/
def LineJoin.gap (join : LineJoin) (folded indented : Bool) : List Char :=
  if folded && join.ending = ['\n'] && !join.indented && !indented then
    if join.blankEndings.isEmpty then [' '] else join.blankEndings
  else join.ending ++ join.blankEndings

/-- The text of lines, without the breaks at its end, and these breaks. -/
def joinLines (folded : Bool) (join : LineJoin) : List BlockLine → List Char × LineJoin
  | [] => ([], join)
  | ⟨[], ending⟩ :: lines =>
    joinLines folded { join with blankEndings := join.blankEndings ++ ending } lines
  | ⟨c :: text, ending⟩ :: lines =>
    let (rest, last) := joinLines folded ⟨ending, [], isSpace c⟩ lines
    (join.gap folded (isSpace c) ++ (c :: text) ++ rest, last)

/-- The text of the lines of a block scalar. -/
def BlockHeader.join (header : BlockHeader) (folded : Bool) (lines : List BlockLine) :
    List Char :=
  let (text, last) := joinLines folded ⟨[], [], false⟩ lines
  match header.chomping with
  | .strip => text
  | .clip => text ++ last.ending
  | .keep => text ++ last.ending ++ last.blankEndings

end DeploymentBackup.Yaml
