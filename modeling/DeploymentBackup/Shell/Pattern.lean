namespace DeploymentBackup.Shell

/-!
# Patterns

A pattern is matched against a whole text: `*` stands for any text, `?` for any character
and brackets for one of some characters. What was quoted stands for itself.

* `Element`, `elements` — the parts of a pattern.
* `agree` — a text fits a pattern.
-/

/-- A character of a pattern, with a mark if it was quoted. -/
abbrev Marked := Bool × Char

/-- A part of a pattern. -/
inductive Element
  | literal (c : Char)
  | any
  | some
  /-- One character that lies in one of the ranges, or in none. -/
  | oneOf (negated : Bool) (ranges : List (Char × Char))
deriving DecidableEq, Repr

/-- The ranges between brackets. -/
def rangesOf : List Marked → List (Char × Char)
  | (_, lo) :: (false, '-') :: (_, hi) :: rest => (lo, hi) :: rangesOf rest
  | (_, c) :: rest => (c, c) :: rangesOf rest
  | [] => []

/-- The characters up to the bracket that closes a set, and those behind it. A bracket in
    first place stands for itself. -/
def setBody (first : Bool) : List Marked → Option (List Marked × List Marked)
  | [] => none
  | (quoted, c) :: rest =>
    if !quoted && c = ']' && !first then .some ([], rest)
    else (setBody false rest).map fun (body, behind) => ((quoted, c) :: body, behind)

/-- The parts of a pattern; `fuel` bounds their number. -/
def elementsFrom : (fuel : Nat) → List Marked → List Element
  | 0, _ => []
  | _, [] => []
  | fuel + 1, (true, c) :: rest => .literal c :: elementsFrom fuel rest
  | fuel + 1, (false, '*') :: rest => .any :: elementsFrom fuel rest
  | fuel + 1, (false, '?') :: rest => .some :: elementsFrom fuel rest
  | fuel + 1, (false, '[') :: rest =>
    let (negated, inner) := match rest with
      | (false, '!') :: inner | (false, '^') :: inner => (true, inner)
      | inner => (false, inner)
    match setBody true inner with
    | .some (body, behind) => .oneOf negated (rangesOf body) :: elementsFrom fuel behind
    | none => .literal '[' :: elementsFrom fuel rest
  | fuel + 1, (false, c) :: rest => .literal c :: elementsFrom fuel rest

/-- The parts of a pattern. -/
def elements (cs : List Marked) : List Element :=
  elementsFrom cs.length cs

/-- The ends of a list, the longest first. -/
def ends {α : Type} : List α → List (List α)
  | [] => [[]]
  | c :: rest => (c :: rest) :: ends rest

/-- A text fits the parts of a pattern. -/
def fits : List Element → List Char → Bool
  | [], cs => cs.isEmpty
  | .any :: more, cs => (ends cs).any (fits more)
  | .literal p :: more, c :: rest => p = c && fits more rest
  | .some :: more, _ :: rest => fits more rest
  | .oneOf negated ranges :: more, c :: rest =>
    (ranges.any fun (lo, hi) => lo ≤ c && c ≤ hi) ≠ negated && fits more rest
  | _, [] => false

/-- A text fits a pattern. -/
def agree (pattern : List Marked) (text : String) : Bool :=
  fits (elements pattern) text.toList

end DeploymentBackup.Shell
