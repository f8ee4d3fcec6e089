import DeploymentBackup.Text.Hex
import DeploymentBackup.Text.Lines
import DeploymentBackup.Toml.Scalar

namespace DeploymentBackup.Toml

open Text

/-!
# Quoted texts and keys

A text stands between double quotes, where a backslash introduces a character, or between
single quotes, where nothing is special. Three quotes of a kind enclose a text of several
lines.

* `quoted?` — a quoted text.
* `keys?` — a path of keys.
-/

/-- A character that may stand in a text of one line, or in a comment. -/
def isPrintable (c : Char) : Bool :=
  c = '\t' || (0x20 ≤ c.toNat && c.toNat ≠ 0x7F)

/-- The character of a code in hexadecimal digits. -/
def codePoint? (digits : List Char) : Option Char :=
  let n := valueOf 16 digits
  if digits.all (isDigitOf 16) && (n < 0xD800 || (0xDFFF < n && n < 0x110000)) then
    some (Char.ofNat n)
  else none

/-- The character that stands behind a backslash, and what follows it. -/
def escaped? (cs : List Char) : Option (Char × List Char) :=
  match cs with
  | 'b' :: rest => some ('\x08', rest)
  | 't' :: rest => some ('\t', rest)
  | 'n' :: rest => some ('\n', rest)
  | 'f' :: rest => some ('\x0c', rest)
  | 'r' :: rest => some ('\r', rest)
  | '"' :: rest => some ('"', rest)
  | '\\' :: rest => some ('\\', rest)
  | 'u' :: rest =>
    if rest.length < 4 then none else (codePoint? (rest.take 4)).map (·, rest.drop 4)
  | 'U' :: rest =>
    if rest.length < 8 then none else (codePoint? (rest.take 8)).map (·, rest.drop 8)
  | _ => none

/-- A text of one line up to its closing quote; `fuel` bounds its length. -/
def oneLine? (quote : Char) : (fuel : Nat) → List Char → Option (List Char × List Char)
  | 0, _ => none
  | _, [] => none
  | fuel + 1, c :: rest =>
    if c = quote then some ([], rest)
    else if c = '\\' && quote = '"' then do
      let (c, rest) ← escaped? rest
      let (more, rest) ← oneLine? quote fuel rest
      return (c :: more, rest)
    else if isPrintable c then
      (oneLine? quote fuel rest).map fun (more, rest) => (c :: more, rest)
    else none

/-- The rest of a text behind a line end. -/
def lineEnd? (cs : List Char) : Option (List Char) :=
  match cs with
  | '\n' :: rest => some rest
  | '\r' :: '\n' :: rest => some rest
  | _ => none

/-- The line ends and blanks behind a backslash at the end of a line are dropped with it. -/
def joined? (cs : List Char) : Option (List Char) :=
  (lineEnd? (cs.dropWhile fun c => c = ' ' || c = '\t')).map fun rest =>
    rest.dropWhile fun c => c = ' ' || c = '\t' || c = '\n' || c = '\r'

/-- A text of several lines up to its closing quotes, of which two more may belong to the
    text; `fuel` bounds its length. -/
def manyLines? (quote : Char) : (fuel : Nat) → List Char → Option (List Char × List Char)
  | 0, _ => none
  | _, [] => none
  | fuel + 1, c :: rest =>
    let go (text : List Char) (rest : List Char) :=
      (manyLines? quote fuel rest).map fun (more, rest) => (text ++ more, rest)
    if c = quote then
      let run := (c :: rest).takeWhile (· = quote)
      if run.length < 3 then go run ((c :: rest).drop run.length)
      else if run.length ≤ 5 then some (run.drop 3, (c :: rest).drop run.length)
      else none
    else if c = '\\' && quote = '"' then
      match escaped? rest, joined? rest with
      | some (c, rest), _ => go [c] rest
      | none, some rest => go [] rest
      | none, none => none
    else
      match lineEnd? (c :: rest) with
      | some behind => go ['\n'] behind
      | none => if isPrintable c then go [c] rest else none

/-- A quoted text at the front. -/
def quoted? (cs : List Char) : Option (String × List Char) :=
  let read (quote : Char) (rest : List Char) : Option (List Char × List Char) :=
    match stripPrefix? [quote, quote] rest with
    | some body => manyLines? quote (body.length + 1) ((lineEnd? body).getD body)
    | none => oneLine? quote (rest.length + 1) rest
  match cs with
  | '"' :: rest => (read '"' rest).map fun (text, rest) => (String.ofList text, rest)
  | '\'' :: rest => (read '\'' rest).map fun (text, rest) => (String.ofList text, rest)
  | _ => none

/-- The rest of a text behind blanks. -/
def skipBlanks (cs : List Char) : List Char :=
  cs.dropWhile fun c => c = ' ' || c = '\t'

/-- A character of a key without quotes. -/
def isKeyChar (c : Char) : Bool :=
  c.isAlphanum || c = '_' || c = '-'

/-- A key at the front. -/
def key? (cs : List Char) : Option (String × List Char) :=
  match cs with
  | '"' :: rest =>
    (oneLine? '"' (rest.length + 1) rest).map fun (k, rest) => (String.ofList k, rest)
  | '\'' :: rest =>
    (oneLine? '\'' (rest.length + 1) rest).map fun (k, rest) => (String.ofList k, rest)
  | cs =>
    let name := cs.takeWhile isKeyChar
    if name.isEmpty then none else some (String.ofList name, cs.dropWhile isKeyChar)

/-- A path of keys with dots between them; `fuel` bounds its length. -/
def keysFrom? : (fuel : Nat) → List Char → Option (List String × List Char)
  | 0, _ => none
  | fuel + 1, cs => do
    let (key, rest) ← key? (skipBlanks cs)
    match skipBlanks rest with
    | '.' :: rest =>
      let (more, rest) ← keysFrom? fuel rest
      return (key :: more, rest)
    | rest => return ([key], rest)

/-- A path of keys, with the blanks around it. -/
def keys? (cs : List Char) : Option (List String × List Char) :=
  keysFrom? (cs.length + 1) cs

end DeploymentBackup.Toml
