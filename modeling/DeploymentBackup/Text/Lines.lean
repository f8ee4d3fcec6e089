namespace DeploymentBackup.Text

/-!
# Cutting text into pieces

* `pieces` — the parts of a list between the occurrences of a separator, one more than
  there are separators.
* `lines` — the lines of a text: a line feed ends a line, a carriage return before it
  belongs to the line end, and nothing follows a final line feed.
* `cutAt` — the parts before and after the first occurrence of a separator.
-/

/-- The parts of `cs` between the occurrences of `sep`. -/
def pieces {α : Type} [BEq α] (sep : α) : List α → List (List α)
  | [] => [[]]
  | c :: rest =>
    if c == sep then [] :: pieces sep rest
    else
      match pieces sep rest with
      | [] => [[c]]
      | head :: tail => (c :: head) :: tail

/-- The parts before and after the first `sep`, when there is one. -/
def cutAt {α : Type} [BEq α] (sep : α) : List α → Option (List α × List α)
  | [] => none
  | c :: rest =>
    if c == sep then some ([], rest)
    else (cutAt sep rest).map fun (before, after) => (c :: before, after)

/-- One carriage return at the end of a line is part of the line end. -/
def dropReturn (line : List Char) : List Char :=
  if line.getLast? = some '\r' then line.dropLast else line

/-- The lines of a text. -/
def lines (s : String) : List String :=
  match (pieces '\n' s.toList).reverse with
  | [] => []
  | last :: ended =>
    let ended := ended.reverse.map fun line => String.ofList (dropReturn line)
    if last.isEmpty then ended else ended ++ [String.ofList last]

/-- `s` without the prefix `pre`, when it has that prefix. -/
def stripPrefix? {α : Type} [BEq α] : (pre s : List α) → Option (List α)
  | [], s => some s
  | _ :: _, [] => none
  | p :: ps, c :: cs => if p == c then stripPrefix? ps cs else none

/-- A text holds the character `c`. -/
def hasChar (s : String) (c : Char) : Bool :=
  s.toList.contains c

/-- The texts of a list with `sep` between them. -/
def joinWith (sep : String) : List String → String
  | [] => ""
  | [s] => s
  | s :: t :: rest => s ++ sep ++ joinWith sep (t :: rest)

/-- Upper-case text, for the letters of ASCII only. -/
def upperAscii (s : String) : String :=
  String.ofList (s.toList.map Char.toUpper)

/-- Lower-case text, for the letters of ASCII only. -/
def lowerAscii (s : String) : String :=
  String.ofList (s.toList.map Char.toLower)

end DeploymentBackup.Text
