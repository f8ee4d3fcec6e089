import DeploymentBackup.Toml.Quoted

namespace DeploymentBackup.Toml

open Text

/-!
# TOML documents

A document is a list of lines: values with their keys, and headers of tables to which the
values below belong.

* `value?` — a value.
* `parse?` — the table that a text spells; none when it is not well formed.
-/

/-- The rest of a text behind a comment, if there is one. -/
def skipComment? (cs : List Char) : Option (List Char) :=
  match cs with
  | '#' :: rest =>
    let comment := rest.takeWhile fun c => c ≠ '\n' && c ≠ '\r'
    if comment.all isPrintable then some (rest.drop comment.length) else none
  | cs => some cs

/-- The rest of a text behind blanks, comments and line ends; `fuel` bounds their number. -/
def skipLines? : (fuel : Nat) → List Char → Option (List Char)
  | 0, _ => none
  | fuel + 1, cs => do
    let rest ← skipComment? (skipBlanks cs)
    match lineEnd? rest with
    | some rest => skipLines? fuel rest
    | none => return rest

/-- The rest of a text behind what may separate the items of a list. -/
def skipAll? (cs : List Char) : Option (List Char) :=
  skipLines? (cs.length + 1) cs

mutual

/-- A value at the front. -/
def valueFrom? : (fuel : Nat) → List Char → Option (Value × List Char)
  | 0, _ => none
  | fuel + 1, cs =>
    match cs with
    | '[' :: rest => do
      let (items, rest) ← itemsFrom? fuel (← skipAll? rest)
      return (.list items, rest)
    | '\x7b' :: rest => do
      match skipBlanks rest with
      | '\x7d' :: rest => return (.table .inline [], rest)
      | rest =>
        let (entries, rest) ← entriesFrom? fuel [] rest
        return (.table .inline entries, rest)
    | cs =>
      match quoted? cs with
      | some (text, rest) => some (.text text, rest)
      | none => if cs.head?.any (fun c => c = '"' || c = '\'') then none else bare? cs

/-- The items of a list up to its end. -/
def itemsFrom? : (fuel : Nat) → List Char → Option (List Value × List Char)
  | 0, _ => none
  | _, ']' :: rest => some ([], rest)
  | fuel + 1, cs => do
    let (item, rest) ← valueFrom? fuel cs
    match ← skipAll? rest with
    | ',' :: rest =>
      let (more, rest) ← itemsFrom? fuel (← skipAll? rest)
      return (item :: more, rest)
    | ']' :: rest => return ([item], rest)
    | _ => none

/-- The entries of a table between braces up to its end, added to those before them. -/
def entriesFrom? : (fuel : Nat) → Table → List Char → Option (Table × List Char)
  | 0, _, _ => none
  | fuel + 1, t, cs => do
    let (path, rest) ← keys? cs
    match rest with
    | '=' :: rest =>
      let (value, rest) ← valueFrom? fuel (skipBlanks rest)
      let t ← t.insert? path value
      match skipBlanks rest with
      | ',' :: rest => entriesFrom? fuel t rest
      | '\x7d' :: rest => return (t, rest)
      | _ => none
    | _ => none

end

/-- A value at the front. -/
def value? (cs : List Char) : Option (Value × List Char) :=
  valueFrom? (2 * cs.length + 2) cs

/-- The rest of a text behind the end of a line with nothing else on it than a comment. -/
def endLine? (cs : List Char) : Option (List Char) := do
  let rest ← skipComment? (skipBlanks cs)
  if rest.isEmpty then return [] else lineEnd? rest

/-- Reads the lines of a document into a table, below the header that came last; `fuel`
    bounds their number. -/
def linesFrom? : (fuel : Nat) → (header : List String) → Table → List Char → Option Table
  | 0, _, _, _ => none
  | fuel + 1, header, t, cs => do
    match ← skipAll? cs with
    | [] => return t
    | '[' :: '[' :: rest =>
      let (path, rest) ← keys? rest
      match rest with
      | ']' :: ']' :: rest => linesFrom? fuel path (← t.append? path) (← endLine? rest)
      | _ => none
    | '[' :: rest =>
      let (path, rest) ← keys? rest
      match rest with
      | ']' :: rest => linesFrom? fuel path (← t.open? path) (← endLine? rest)
      | _ => none
    | cs =>
      let (path, rest) ← keys? cs
      match rest with
      | '=' :: rest =>
        let (value, rest) ← value? (skipBlanks rest)
        linesFrom? fuel header (← t.insertBelow? header path value) (← endLine? rest)
      | _ => none

/-- The table that a text spells. A mark of the byte order in front is dropped. -/
def parse? (text : String) : Option Table :=
  let cs := match text.toList with
    | '\ufeff' :: cs => cs
    | cs => cs
  linesFrom? (cs.length + 1) [] [] cs

end DeploymentBackup.Toml
