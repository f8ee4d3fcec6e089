import DeploymentBackup.Text.Blank
import DeploymentBackup.Toml.Quoted

namespace DeploymentBackup.Config

open Text

/-!
# Settings in environment variables

The text of an environment variable stands for a value: what looks like a boolean, a
number, a list or a table is one, a text between double quotes is that text, and anything
else stands for itself.

* `Setting` — a text, or a value of another kind.
* `Setting.ofVariable` — what the text of a variable stands for.
-/

/-- A value of a setting. Settings are texts; other values are out of place. -/
inductive Setting
  | text (s : String)
  | other
deriving DecidableEq, Repr

/-- A blank between parts of a value. -/
def isSpace (c : Char) : Bool :=
  c = ' ' || c = '\t' || c = '\n' || c = '\r' || c = '\x0c'

/-- The rest of a text behind blanks. -/
def skipSpaces (cs : List Char) : List Char :=
  cs.dropWhile isSpace

/-- A character that is no sign of a list or a table. -/
def isFree (c : Char) : Bool :=
  !([',', '\x7b', '\x7d', '[', ']'].contains c)

/-- A text up to the quote that closes it, as far as escaped characters are known; `fuel`
    bounds its length. -/
def quotedBody? : (fuel : Nat) → List Char → Option (List Char × List Char)
  | 0, _ => none
  | _, [] => none
  | _, '"' :: rest => some ([], rest)
  | fuel + 1, '\\' :: rest => do
    let (c, rest) ← Toml.escaped? rest
    let (more, rest) ← quotedBody? fuel rest
    return (c :: more, rest)
  | fuel + 1, c :: rest => (quotedBody? fuel rest).map fun (more, rest) => (c :: more, rest)

/-- A whole number of a machine word. -/
def isWord (cs : List Char) : Bool :=
  let value (ds : List Char) : Option Nat :=
    if !ds.isEmpty && ds.all Char.isDigit then some (Toml.valueOf 10 ds) else none
  match cs with
  | '-' :: ds => (value ds).any (· ≤ UInt64.size / 2)
  | '+' :: ds => (value ds).any (· < UInt64.size)
  | ds => (value ds).any (· < UInt64.size)

/-- A number with a point. -/
def isPointNumber (cs : List Char) : Bool :=
  let cs := (Toml.unsigned cs).2
  let mark (c : Char) : Bool := c = 'e' || c = 'E'
  match cutAt '.' (cs.takeWhile (!mark ·)), cs.dropWhile (!mark ·) with
  | some (whole, fraction), exponent =>
    let digits := whole ++ fraction
    let power := (Toml.unsigned exponent.tail).2
    !digits.isEmpty && digits.all Char.isDigit &&
      (exponent.isEmpty || (!power.isEmpty && power.all Char.isDigit))
  | none, _ => false

/-- What a text without quotes stands for. -/
def freeValue (cs : List Char) : Setting :=
  let cs := trimChars cs
  if isPointNumber cs || isWord cs then .other else .text (String.ofList cs)

mutual

/-- A value at the front. -/
def settingFrom? : (fuel : Nat) → List Char → Option (Setting × List Char)
  | 0, _ => none
  | fuel + 1, cs => do
    let (value, rest) ← coreFrom? fuel (skipSpaces cs)
    return (value, skipSpaces rest)

/-- A value at the front, without the blanks around it. -/
def coreFrom? : (fuel : Nat) → List Char → Option (Setting × List Char)
  | 0, _ => none
  | fuel + 1, cs =>
    match stripPrefix? "true".toList cs, stripPrefix? "false".toList cs with
    | some rest, _ => some (.other, rest)
    | none, some rest => some (.other, rest)
    | none, none =>
      match cs with
      | '\x7b' :: rest => (membersFrom? fuel true '\x7d' rest).map (.other, ·)
      | '[' :: rest => (membersFrom? fuel false ']' rest).map (.other, ·)
      | '"' :: rest =>
        (quotedBody? (rest.length + 1) rest).map fun (s, rest) => (.text (String.ofList s), rest)
      | '\'' :: c :: '\'' :: rest => some (.text (String.singleton c), rest)
      | '\'' :: _ => none
      | cs => some (freeValue (cs.takeWhile isFree), cs.dropWhile isFree)

/-- The rest of a text behind the members of a list, or of a table with keys, and behind the
    sign that closes it. -/
def membersFrom? : (fuel : Nat) → (keyed : Bool) → (close : Char) → List Char →
    Option (List Char)
  | 0, _, _, _ => none
  | fuel + 1, keyed, close, cs =>
    if cs.head? = some close then some cs.tail
    else do
      let cs ← if keyed then keyFrom? cs else some cs
      let (_, rest) ← settingFrom? fuel cs
      match rest with
      | ',' :: rest => membersFrom? fuel keyed close rest
      | c :: rest => if c = close then some rest else none
      | [] => none

/-- The rest of a text behind a key and its equals sign. -/
def keyFrom? (cs : List Char) : Option (List Char) := do
  let (_, rest) ← Toml.key? (skipSpaces cs)
  match skipSpaces rest with
  | '=' :: rest => some rest
  | _ => none

end

/-- What the text of a variable stands for. Commas between texts without quotes make a
    list. -/
def Setting.ofVariable (raw : String) : Setting :=
  let text := trim raw
  let cs := text.toList
  let plain := !cs.head?.any fun c => c = '[' || c = '\x7b' || c = '"' || c = '\''
  if plain && hasChar text ',' then .other
  else
    match settingFrom? (2 * cs.length + 4) cs with
    | some (value, []) => value
    | _ => .text text

end DeploymentBackup.Config
