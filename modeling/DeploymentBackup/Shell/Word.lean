import DeploymentBackup.Text.Lines

namespace DeploymentBackup.Shell

open Text

/-!
# Words and operators

The first thing a shell does with a command is to cut it into words and operators. Quotes
and backslashes take away the meaning of the characters that they cover; what remains
unquoted may be an expansion, which is kept for later.

* `Part`, `Word` — the parts of a word.
* `Token` — a word, an operator or a redirection.
* `tokens?` — the tokens of a text; none when a quote or an expansion is not closed.
-/

/-- A part of a word. Quoted parts are not split and not matched as patterns. -/
inductive Part
  | literal (quoted : Bool) (text : List Char)
  /-- The value of a parameter. -/
  | parameter (quoted : Bool) (name : String)
  /-- The number of characters of that value. -/
  | length (quoted : Bool) (name : String)
  | arithmetic (quoted : Bool) (text : List Char)
  /-- The output of a command. -/
  | substitution (quoted : Bool) (text : List Char)
deriving DecidableEq, Repr

/-- A word before its expansion. -/
abbrev Word := List Part

/-- How a redirection opens its file. -/
inductive RedirectKind
  | read
  | write
  | append
  | duplicate
deriving DecidableEq, Repr

/-- One token of a command. -/
inductive Token
  | word (w : Word)
  | operator (text : String)
  /-- A redirection of a descriptor; its target is the next word. -/
  | redirect (descriptor : Nat) (kind : RedirectKind)
  | newline
deriving DecidableEq, Repr

/-! ### Expansions -/

/-- The text up to the parenthesis that closes the innermost of `depth + 1` open ones. -/
def balanced : (depth : Nat) → List Char → Option (List Char × List Char)
  | _, [] => none
  | depth, c :: rest =>
    let go (depth : Nat) := (balanced depth rest).map fun (body, rest) => (c :: body, rest)
    if c = '(' then go (depth + 1)
    else if c = ')' then
      match depth with
      | 0 => some ([], rest)
      | depth + 1 => go depth
    else go depth

/-- The text up to the backquote that closes it. A backslash takes away the meaning of the
    character behind it, if that has one here. -/
def backquoted : List Char → Option (List Char × List Char)
  | [] => none
  | '\\' :: c :: rest =>
    (backquoted rest).map fun (body, rest) =>
      (if c = '$' || c = '\x60' || c = '\\' then c :: body else '\\' :: c :: body, rest)
  | c :: rest =>
    if c = '\x60' then some ([], rest)
    else (backquoted rest).map fun (body, rest) => (c :: body, rest)

/-- A character of a parameter name. -/
def isNameChar (c : Char) : Bool :=
  c.isAlphanum || c = '_'

/-- A parameter whose name is one special character. -/
def isSpecialParameter (c : Char) : Bool :=
  "@*#?$!-".toList.contains c || c.isDigit

/-- The expansion behind a dollar sign; none when the sign stands for itself. -/
def expansion? (quoted : Bool) (cs : List Char) : Option (Part × List Char) :=
  match cs with
  | '(' :: '(' :: rest =>
    match balanced 1 rest with
    | some (body, rest) => some (.arithmetic quoted body.dropLast, rest)
    | none => none
  | '(' :: rest => (balanced 0 rest).map fun (body, rest) => (.substitution quoted body, rest)
  | '{' :: '#' :: rest =>
    (cutAt '}' rest).map fun (name, rest) =>
      (if name.isEmpty then .parameter quoted "#" else .length quoted (String.ofList name), rest)
  | '{' :: rest =>
    (cutAt '}' rest).map fun (name, rest) => (.parameter quoted (String.ofList name), rest)
  | c :: rest =>
    if isSpecialParameter c then some (.parameter quoted (String.singleton c), rest)
    else if isNameChar c then
      some (.parameter quoted (String.ofList ((c :: rest).takeWhile isNameChar)),
        (c :: rest).dropWhile isNameChar)
    else none
  | [] => none

/-! ### Words -/

/-- A character that ends a word unless it is quoted. -/
def isMeta (c : Char) : Bool :=
  " \t\n;&|<>()".toList.contains c

/-- The parts up to a closing double quote; `fuel` bounds their number. -/
def doubleQuoted : (fuel : Nat) → List Char → Option (List Part × List Char)
  | 0, _ => none
  | _, [] => none
  | fuel + 1, c :: rest =>
    let go (parts : List Part) (rest : List Char) :=
      (doubleQuoted fuel rest).map fun (more, rest) => (parts ++ more, rest)
    if c = '"' then some ([], rest)
    else if c = '\\' then
      match rest with
      | '\n' :: rest => go [] rest
      | d :: rest =>
        if d = '$' || d = '\x60' || d = '"' || d = '\\' then go [.literal true [d]] rest
        else go [.literal true ['\\', d]] rest
      | [] => none
    else if c = '$' then
      match expansion? true rest with
      | some (part, rest) => go [part] rest
      | none => go [.literal true ['$']] rest
    else if c = '\x60' then
      match backquoted rest with
      | some (body, rest) => go [.substitution true body] rest
      | none => none
    else go [.literal true [c]] rest

/-- The parts of the word at the front, up to a character that ends it; `fuel` bounds their
    number. -/
def wordParts : (fuel : Nat) → List Char → Option (Word × List Char)
  | 0, _ => none
  | _, [] => some ([], [])
  | fuel + 1, c :: rest =>
    let go (parts : List Part) (rest : List Char) :=
      (wordParts fuel rest).map fun (more, rest) => (parts ++ more, rest)
    if isMeta c then some ([], c :: rest)
    else if c = '\'' then
      match cutAt '\'' rest with
      | some (body, rest) => go [.literal true body] rest
      | none => none
    else if c = '"' then
      match doubleQuoted (rest.length + 1) rest with
      | some (parts, rest) =>
        -- Quotes make a word even around nothing, except around no arguments.
        go (if parts = [.parameter true "@"] then parts else .literal true [] :: parts) rest
      | none => none
    else if c = '\\' then
      match rest with
      | '\n' :: rest => go [] rest
      | d :: rest => go [.literal true [d]] rest
      | [] => go [.literal true ['\\']] []
    else if c = '$' then
      match expansion? false rest with
      | some (part, rest) => go [part] rest
      | none => go [.literal false ['$']] rest
    else if c = '\x60' then
      match backquoted rest with
      | some (body, rest) => go [.substitution false body] rest
      | none => none
    else go [.literal false [c]] rest

/-- Joins neighbouring literals of one kind. -/
def mergeParts : Word → Word
  | .literal q a :: rest =>
    match mergeParts rest with
    | .literal r b :: more => if q = r then .literal q (a ++ b) :: more
      else .literal q a :: .literal r b :: more
    | merged => .literal q a :: merged
  | part :: rest => part :: mergeParts rest
  | [] => []

/-- The unquoted literal text of a word that is nothing else. -/
def Word.bare? : Word → Option (List Char)
  | [.literal false text] => some text
  | _ => none

/-! ### Tokens -/

/-- The operator at the front that is not a redirection, and its length. -/
def operatorAt : List Char → Option String
  | '&' :: '&' :: _ => some "&&"
  | '|' :: '|' :: _ => some "||"
  | ';' :: ';' :: _ => some ";;"
  | '&' :: _ => some "&"
  | '|' :: _ => some "|"
  | ';' :: _ => some ";"
  | '(' :: _ => some "("
  | ')' :: _ => some ")"
  | _ => none

/-- The redirection at the front: its own descriptor, its kind and its length. -/
def redirectAt : List Char → Option (Nat × RedirectKind × Nat)
  | '>' :: '>' :: _ => some (1, .append, 2)
  | '>' :: '&' :: _ => some (1, .duplicate, 2)
  | '<' :: '&' :: _ => some (0, .duplicate, 2)
  | '>' :: '|' :: _ => some (1, .write, 2)
  | '>' :: _ => some (1, .write, 1)
  | '<' :: _ => some (0, .read, 1)
  | _ => none

/-- A descriptor right before a redirection. -/
def descriptorAt (cs : List Char) : Option (Nat × List Char) :=
  let digits := cs.takeWhile Char.isDigit
  let rest := cs.dropWhile Char.isDigit
  if digits.isEmpty || (redirectAt rest).isNone then none
  else some (digits.foldl (fun n c => n * 10 + (c.toNat - '0'.toNat)) 0, rest)

/-- The tokens of a text; `fuel` bounds their number. -/
def tokensFrom : (fuel : Nat) → List Char → Option (List Token)
  | 0, _ => none
  | _, [] => some []
  | fuel + 1, c :: rest =>
    if c = '\n' then (tokensFrom fuel rest).map (.newline :: ·)
    else if c = ' ' || c = '\t' then tokensFrom fuel rest
    else if c = '#' then tokensFrom fuel (rest.dropWhile (· ≠ '\n'))
    else
      match operatorAt (c :: rest), descriptorAt (c :: rest) with
      | some text, _ =>
        (tokensFrom fuel ((c :: rest).drop text.length)).map (.operator text :: ·)
      | none, descriptor =>
        let (given, behind) := match descriptor with
          | some (n, behind) => (some n, behind)
          | none => (none, c :: rest)
        match redirectAt behind with
        | some (own, kind, width) =>
          (tokensFrom fuel (behind.drop width)).map (.redirect (given.getD own) kind :: ·)
        | none =>
          match wordParts (rest.length + 2) (c :: rest) with
          | some (parts, rest) =>
            (tokensFrom fuel rest).map (.word (mergeParts parts) :: ·)
          | none => none

/-- The tokens of a text. -/
def tokens? (text : String) : Option (List Token) :=
  tokensFrom (text.length + 1) text.toList

end DeploymentBackup.Shell
