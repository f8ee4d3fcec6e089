import DeploymentBackup.Yaml.Character
import DeploymentBackup.Yaml.Token

namespace DeploymentBackup.Yaml

/-!
# Plain scalars

A plain scalar is a sequence of words without quotes around them. It ends before a colon
that a blank follows, before a comment, at a line that is indented too little and, in a flow
collection, before the indicators of such collections. Words on several lines fold like the
lines of a quoted scalar.

* `plainWord` — the word at the front of a text.
* `Plain.read` — the plain scalar at the front of a text.
-/

/-- Where a plain scalar stands: inside a flow collection or not, and the least column of
    its continuation lines. -/
structure PlainContext where
  flow : Bool
  margin : Nat

/-- The indicators that end a plain scalar in a flow collection. -/
def isFlowIndicator (c : Char) : Bool :=
  c = ',' || c = '[' || c = ']' || c = '{' || c = '}'

/-- The characters up to the first that cannot belong to a plain word. In a flow collection
    a colon must not stand right before an indicator. -/
def plainWord (flow : Bool) : List Char → Except Fault (List Char)
  | [] => .ok []
  | c :: rest =>
    if isGap c then .ok []
    else if c = ':' && flow && rest.head?.any (fun d => isFlowIndicator d || d = '?') then
      .error .unexpectedCharacter
    else if c = ':' && atGap rest then .ok []
    else if flow && isFlowIndicator c then .ok []
    else (plainWord flow rest).map (c :: ·)

/-- A tab among the indentation of a continuation line, before its least column. -/
def tabIndented (margin : Nat) : (column : Option Nat) → List Char → Bool
  | _, [] => false
  | column, c :: rest =>
    if isBreak c then tabIndented margin (some 0) rest
    else
      match column with
      | none => tabIndented margin none rest
      | some column =>
        if c = '\t' && column < margin then true
        else tabIndented margin (some (column + 1)) rest

/-- The gap is followed by a line that belongs to the scalar, and not by a comment. -/
def PlainContext.continues (ctx : PlainContext) (gap next : List Char) : Bool :=
  let column := (lastLine gap).length
  let newLine := gap.any isBreak
  !(newLine && !ctx.flow && column < ctx.margin) &&
    !(newLine && column = 0 && isMark true next) &&
    next.head? != some '#'

/-- A plain scalar: its text, the characters it takes, and whether these end in a gap over
    a line break. -/
structure Plain where
  text : List Char
  taken : List Char
  newLine : Bool

/-- The words from `cs` on, the first of which is not empty. -/
def Plain.read (ctx : PlainContext) (cs : List Char) : Except Fault Plain :=
  match plainWord ctx.flow cs with
  | .error fault => .error fault
  | .ok word =>
    let rest := cs.drop word.length
    let gap := rest.takeWhile isGap
    let next := rest.dropWhile isGap
    if tabIndented ctx.margin none gap then .error .tabIndentation
    else
      let ended : Plain := ⟨word, word ++ gap, gap.any isBreak⟩
      if _h : gap ≠ [] ∧ word ≠ [] ∧ ctx.continues gap next then
        match Plain.read ctx next with
        | .error fault => .error fault
        | .ok more =>
          if more.text.isEmpty then .ok ended
          else .ok ⟨word ++ foldGap gap ++ more.text, word ++ gap ++ more.taken, more.newLine⟩
      else .ok ended
termination_by cs.length
decreasing_by
  have := (List.dropWhile_sublist isGap (l := cs.drop word.length)).length_le
  have nonempty : 0 < word.length := List.length_pos_iff.mpr _h.2.1
  have : cs ≠ [] := by
    intro h0
    exact _h.1 (by simp [gap, rest, h0])
  have : 0 < cs.length := List.length_pos_iff.mpr this
  simp only [List.length_drop] at *
  omega

end DeploymentBackup.Yaml
