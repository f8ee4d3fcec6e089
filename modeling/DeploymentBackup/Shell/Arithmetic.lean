import DeploymentBackup.Shell.Word
import DeploymentBackup.Text.Hex

namespace DeploymentBackup.Shell

open Text

/-!
# Arithmetic

The text between `$((` and `))` is an expression of integers. A variable stands for the
integer that it spells, or for zero.

* `Symbol`, `symbols?` — the numbers, names and operators of an expression.
* `evaluate?` — the value of an expression.
-/

/-- A number, a name or an operator. -/
inductive Symbol
  | number (value : Int)
  | name (text : String)
  | sign (text : String)
deriving DecidableEq, Repr

/-- The operators of an expression, longer ones first. -/
def signs : List String :=
  ["<<", ">>", "<=", ">=", "==", "!=", "&&", "||", "+", "-", "*", "/", "%", "<", ">", "&", "^",
   "|", "!", "~", "?", ":", "(", ")"]

/-- The value of digits in a base. -/
def valueIn (base : Nat) (cs : List Char) : Option Nat :=
  cs.foldlM (fun n c => do
    let v := if c.isDigit then c.toNat - '0'.toNat
      else if 'a' ≤ c && c ≤ 'f' then c.toNat - 'a'.toNat + 10
      else if 'A' ≤ c && c ≤ 'F' then c.toNat - 'A'.toNat + 10
      else base
    if v < base then some (n * base + v) else none) 0

/-- The value of a number: hexadecimal behind `0x`, octal behind `0`, else decimal. -/
def spelledNat? (cs : List Char) : Option Nat :=
  match cs with
  | '0' :: 'x' :: digits | '0' :: 'X' :: digits => valueIn 16 digits
  | '0' :: digits => valueIn 8 digits
  | [] => none
  | digits => valueIn 10 digits

/-- The symbols of an expression; `fuel` bounds their number. -/
def symbolsFrom : (fuel : Nat) → List Char → Option (List Symbol)
  | 0, _ => none
  | _, [] => some []
  | fuel + 1, c :: rest =>
    if c = ' ' || c = '\t' || c = '\n' then symbolsFrom fuel rest
    else if isNameChar c then
      let text := (c :: rest).takeWhile isNameChar
      let behind := (c :: rest).dropWhile isNameChar
      match (if c.isDigit then (spelledNat? text).map fun n => Symbol.number n
        else some (.name (String.ofList text))) with
      | some symbol => (symbolsFrom fuel behind).map (symbol :: ·)
      | none => none
    else
      match signs.find? fun s => s.toList.isPrefixOf (c :: rest) with
      | some s => (symbolsFrom fuel ((c :: rest).drop s.length)).map (.sign s :: ·)
      | none => none

/-- The symbols of an expression. -/
def symbols? (cs : List Char) : Option (List Symbol) :=
  symbolsFrom (cs.length + 1) cs

/-- One for true, zero for false. -/
def truth (b : Bool) : Int :=
  if b then 1 else 0

/-- Reads a value as a word of 64 bits with a sign. -/
def wrap (n : Int) : Int :=
  n.bmod UInt64.size

/-- The value of an operation; none when it divides by zero. A shift goes by less than the
    width of a word. -/
def operate? (op : String) (a b : Int) : Option Int :=
  match op with
  | "*" => some (wrap (a * b))
  | "/" => if b = 0 then none else some (wrap (a.tdiv b))
  | "%" => if b = 0 then none else some (wrap (a.tmod b))
  | "+" => some (wrap (a + b))
  | "-" => some (wrap (a - b))
  | "<<" => some (wrap (a * Nat.pow 2 (b.emod 64).toNat))
  | ">>" => some (a >>> (b.emod 64).toNat)
  | "<" => some (truth (a < b))
  | "<=" => some (truth (a ≤ b))
  | ">" => some (truth (b < a))
  | ">=" => some (truth (b ≤ a))
  | "==" => some (truth (a = b))
  | "!=" => some (truth (a ≠ b))
  | "&" => some ((BitVec.ofInt 64 a &&& BitVec.ofInt 64 b).toInt)
  | "^" => some ((BitVec.ofInt 64 a ^^^ BitVec.ofInt 64 b).toInt)
  | "|" => some ((BitVec.ofInt 64 a ||| BitVec.ofInt 64 b).toInt)
  | "&&" => some (truth (a ≠ 0 && b ≠ 0))
  | "||" => some (truth (a ≠ 0 || b ≠ 0))
  | _ => none

/-- The operators of each rank, the weakest first. -/
def ranks : List (List String) :=
  [["||"], ["&&"], ["|"], ["^"], ["&"], ["==", "!="], ["<", "<=", ">", ">="], ["<<", ">>"],
   ["+", "-"], ["*", "/", "%"]]

mutual

/-- The value of the expression in front: a choice or what has the rank below. -/
def choiceValue (value : String → Int) : (fuel : Nat) → List Symbol → Option (Int × List Symbol)
  | 0, _ => none
  | fuel + 1, ss => do
    let (a, rest) ← rankValue value fuel ranks ss
    match rest with
    | .sign "?" :: rest =>
      let (b, rest) ← choiceValue value fuel rest
      match rest with
      | .sign ":" :: rest =>
        let (c, rest) ← choiceValue value fuel rest
        return (if a ≠ 0 then b else c, rest)
      | _ => none
    | rest => return (a, rest)

/-- The value of operations of a rank or of a stronger one. -/
def rankValue (value : String → Int) :
    (fuel : Nat) → List (List String) → List Symbol → Option (Int × List Symbol)
  | 0, _, _ => none
  | fuel + 1, [], ss => unaryValue value fuel ss
  | fuel + 1, ops :: stronger, ss => do
    let (a, rest) ← rankValue value fuel stronger ss
    rankRest value fuel ops stronger a rest

/-- Goes on with operations of one rank behind a first operand. -/
def rankRest (value : String → Int) : (fuel : Nat) → List String → List (List String) → Int →
    List Symbol → Option (Int × List Symbol)
  | 0, _, _, _, _ => none
  | fuel + 1, ops, stronger, a, ss =>
    match ss with
    | .sign op :: rest =>
      if ops.contains op then do
        let (b, rest) ← rankValue value fuel stronger rest
        rankRest value fuel ops stronger (← operate? op a b) rest
      else some (a, ss)
    | ss => some (a, ss)

/-- The value of an operand with the signs in front of it. -/
def unaryValue (value : String → Int) : (fuel : Nat) → List Symbol → Option (Int × List Symbol)
  | 0, _ => none
  | fuel + 1, ss =>
    match ss with
    | .number n :: rest => some (wrap n, rest)
    | .name text :: rest => some (value text, rest)
    | .sign "(" :: rest => do
      let (a, rest) ← choiceValue value fuel rest
      match rest with
      | .sign ")" :: rest => return (a, rest)
      | _ => none
    | .sign "-" :: rest => (unaryValue value fuel rest).map fun (a, rest) => (wrap (-a), rest)
    | .sign "+" :: rest => unaryValue value fuel rest
    | .sign "!" :: rest => (unaryValue value fuel rest).map fun (a, rest) => (truth (a = 0), rest)
    | .sign "~" :: rest => (unaryValue value fuel rest).map fun (a, rest) => (-a - 1, rest)
    | _ => none

end

/-- The integer that a text spells, if it is one with at most one sign. -/
def spelledInt? (cs : List Char) : Option Int :=
  match cs with
  | '-' :: digits => (spelledNat? digits).map fun n => -(n : Int)
  | '+' :: digits => (spelledNat? digits).map Int.ofNat
  | digits => (spelledNat? digits).map Int.ofNat

/-- The value of an expression whose variables have texts. -/
def evaluate? (lookUp : String → String) (cs : List Char) : Option Int := do
  let ss ← symbols? cs
  if ss.isEmpty then return 0
  let value (name : String) := (spelledInt? (lookUp name).toList).getD 0
  match ← choiceValue value (16 * ss.length + 64) ss with
  | (n, []) => return n
  | _ => none

end DeploymentBackup.Shell
