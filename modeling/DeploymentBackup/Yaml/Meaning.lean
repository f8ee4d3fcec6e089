import DeploymentBackup.Text.Hex
import DeploymentBackup.Text.Lines
import DeploymentBackup.Yaml.Node

namespace DeploymentBackup.Yaml

/-!
# What scalars mean

A plain scalar without a tag is read as nothing, a truth value, a number or a text by its
spelling. A tag of the core set asks for one of these kinds, and any quoted scalar is a text.

* `Meaning` — what a scalar means.
* `meaningOf` — the meaning of the text of a plain scalar.
* `Scalar.meaning` — the meaning of a scalar with its tag and style.
-/

/-- What a scalar means. -/
inductive Meaning
  | null
  | boolean (value : Bool)
  | integer (value : Int)
  | float
  | text (value : String)
deriving DecidableEq, Repr

/-! ### Nothing and truth values -/

/-- The spellings of nothing, other than the empty text. -/
def isNull (text : String) : Bool :=
  text = "~" || text = "null" || text = "Null" || text = "NULL"

/-- The spellings of truth values. -/
def boolean? (text : String) : Option Bool :=
  if text = "true" || text = "True" || text = "TRUE" then some true
  else if text = "false" || text = "False" || text = "FALSE" then some false
  else none

/-! ### Integers -/

/-- The value of digits in a base; there is at least one. -/
def digitsValue? (base : Nat) (cs : List Char) : Option Nat :=
  if cs.isEmpty then none
  else cs.foldl (fun value c => do
    let value ← value
    let digit ← Text.hexValue? c
    if digit < base then some (value * base + digit) else none) (some 0)

/-- A text without one sign in front. -/
def unsigned (cs : List Char) : List Char :=
  match cs with
  | '-' :: rest | '+' :: rest => rest
  | cs => cs

/-- Two or more digits of which the first is zero, after a sign: a text, not a number. -/
def isZeroLed (cs : List Char) : Bool :=
  match unsigned cs with
  | '0' :: c :: rest => (c :: rest).all Char.isDigit
  | _ => false

/-- The value of digits behind the mark of their base, decimal without a mark. -/
def basedValue? (cs : List Char) : Option Nat :=
  match cs with
  | '0' :: 'x' :: digits => digitsValue? 16 digits
  | '0' :: 'o' :: digits => digitsValue? 8 digits
  | '0' :: 'b' :: digits => digitsValue? 2 digits
  | digits => digitsValue? 10 digits

/-- The value of an integer of at most 128 bits, with a sign or without one. -/
def integer? (cs : List Char) : Option Int :=
  if isZeroLed cs then none
  else
    match cs with
    | '-' :: rest => do
      let n ← basedValue? rest
      if n ≤ Nat.pow 2 127 then some (-(n : Int)) else none
    | cs => do
      let n ← basedValue? (match cs with | '+' :: rest => rest | cs => cs)
      if n < Nat.pow 2 128 then some (n : Int) else none

/-! ### Floats -/

/-- The least magnitude that rounds to infinity among binary numbers of double precision. -/
def overflowLimit : Nat := Nat.pow 2 1024 - Nat.pow 2 970

/-- `m * 10 ^ e` does not round to infinity. -/
def isFinite (m : Nat) (e : Int) : Bool :=
  let digits : Int := (Nat.toDigits 10 m).length
  if m = 0 || e + digits ≤ 308 then true
  else if 310 < e + digits then false
  else if 0 ≤ e then m * Nat.pow 10 e.toNat < overflowLimit
  else m < overflowLimit * Nat.pow 10 (-e).toNat

/-- The exponent of a decimal number, `0` when nothing is left of it. -/
def exponent? (cs : List Char) : Option Int :=
  match cs with
  | [] => some 0
  | c :: rest =>
    if c = 'e' || c = 'E' then
      match rest with
      | '-' :: digits => (digitsValue? 10 digits).map fun n => -(n : Int)
      | '+' :: digits => (digitsValue? 10 digits).map Int.ofNat
      | digits => (digitsValue? 10 digits).map Int.ofNat
    else none

/-- A decimal number without a sign whose value does not overflow. -/
def isDecimal (cs : List Char) : Bool :=
  let whole := cs.takeWhile Char.isDigit
  let rest := cs.dropWhile Char.isDigit
  let (fraction, rest) :=
    match rest with
    | '.' :: rest => (rest.takeWhile Char.isDigit, rest.dropWhile Char.isDigit)
    | rest => ([], rest)
  match digitsValue? 10 (whole ++ fraction), exponent? rest with
  | some m, some e => isFinite m (e - fraction.length)
  | _, _ => false

/-- The spellings of infinity, without a sign. -/
def infinities : List String := [".inf", ".Inf", ".INF"]

/-- The spellings of what is not a number. -/
def notANumbers : List String := [".nan", ".NaN", ".NAN"]

/-- A float: a decimal number with at most one sign, an infinity or not a number. -/
def isFloat (cs : List Char) : Bool :=
  isDecimal (unsigned cs) || infinities.contains (String.ofList (unsigned cs)) ||
    notANumbers.contains (String.ofList cs)

/-! ### Scalars -/

/-- The meaning of a plain scalar without a tag. -/
def meaningOf (text : String) : Meaning :=
  if text.isEmpty || isNull text then .null
  else
    match boolean? text, integer? text.toList with
    | some b, _ => .boolean b
    | none, some n => .integer n
    | none, none =>
      if !isZeroLed text.toList && isFloat text.toList then .float else .text text

/-- The tag of a kind of the core set. -/
def coreTag (kind : String) : String :=
  "tag:yaml.org,2002:" ++ kind

/-- The meaning of a scalar. A tag of one's own is not understood; any tag that is neither
    that nor of the core set asks for a text. -/
def Scalar.meaning (s : Scalar) : Except Fault Meaning :=
  match s.tag with
  | none => .ok (if s.style = .plain then meaningOf s.text else .text s.text)
  | some tag =>
    if tag.toList.head? = some '!' then .error (.wrongKind "a scalar without a tag of its own")
    else if tag = coreTag "bool" then
      match boolean? s.text with
      | some b => .ok (.boolean b)
      | none => .error (.wrongKind "a boolean")
    else if tag = coreTag "int" then
      match integer? s.text.toList with
      | some n => .ok (.integer n)
      | none => .error (.wrongKind "an integer")
    else if tag = coreTag "float" then
      if isFloat s.text.toList then .ok .float else .error (.wrongKind "a float")
    else if tag = coreTag "null" then
      if isNull s.text then .ok .null else .error (.wrongKind "null")
    else .ok (.text s.text)

end DeploymentBackup.Yaml
