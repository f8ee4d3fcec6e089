import DeploymentBackup.Text.Lines
import DeploymentBackup.Toml.Table

namespace DeploymentBackup.Toml

open Text

/-!
# Numbers, dates and times

What is written without quotes is a boolean, an integer of 64 bits, a float, a date or a
time.

* `integer?`, `isFloat`, `isMoment` — the spellings.
* `bare?` — the value of a text without quotes.
-/

/-! ### Numbers -/

/-- A digit of a base up to sixteen. -/
def isDigitOf (base : Nat) (c : Char) : Bool :=
  if base = 16 then c.isDigit || ('a' ≤ c && c ≤ 'f') || ('A' ≤ c && c ≤ 'F')
  else c.isDigit && c.toNat < '0'.toNat + base

/-- The value of a digit. -/
def digitValue (c : Char) : Nat :=
  if c.isDigit then c.toNat - '0'.toNat
  else if c.toNat < 'a'.toNat then c.toNat - 'A'.toNat + 10
  else c.toNat - 'a'.toNat + 10

/-- Groups of digits with single underscores between them, as one row of digits. -/
def digits? (base : Nat) (cs : List Char) : Option (List Char) :=
  let groups := pieces '_' cs
  if groups.all fun g => !g.isEmpty && g.all (isDigitOf base) then some groups.flatten else none

/-- The value of digits. -/
def valueOf (base : Nat) (digits : List Char) : Nat :=
  digits.foldl (fun n c => n * base + digitValue c) 0

/-- Decimal digits without a zero in front of others. -/
def whole? (cs : List Char) : Option (List Char) :=
  match digits? 10 cs with
  | some ('0' :: _ :: _) => none
  | digits => digits

/-- What stands behind a sign, and whether that is a minus. -/
def unsigned (cs : List Char) : Bool × List Char :=
  match cs with
  | '-' :: rest => (true, rest)
  | '+' :: rest => (false, rest)
  | cs => (false, cs)

/-- The value of an integer. -/
def integer? (cs : List Char) : Option Int :=
  let value? : Option Int :=
    match cs with
    | '0' :: 'x' :: rest => (digits? 16 rest).map fun ds => (valueOf 16 ds : Int)
    | '0' :: 'o' :: rest => (digits? 8 rest).map fun ds => (valueOf 8 ds : Int)
    | '0' :: 'b' :: rest => (digits? 2 rest).map fun ds => (valueOf 2 ds : Int)
    | cs =>
      let (negative, rest) := unsigned cs
      (whole? rest).map fun ds =>
        let n : Int := valueOf 10 ds
        if negative then -n else n
  value?.filter fun n => Int64.minValue.toInt ≤ n && n ≤ Int64.maxValue.toInt

/-- The digits of an exponent, with a sign or without one. -/
def isExponent (cs : List Char) : Bool :=
  (digits? 10 (unsigned cs).2).isSome

/-- A decimal number with a fraction or an exponent. -/
def isFloat (cs : List Char) : Bool :=
  let cs := (unsigned cs).2
  let mark (c : Char) : Bool := c = 'e' || c = 'E'
  if cs = "inf".toList || cs = "nan".toList then true
  else
    match cutAt '.' (cs.takeWhile (!mark ·)), cs.dropWhile (!mark ·) with
    | some (w, fraction), exponent =>
      (whole? w).isSome && (digits? 10 fraction).isSome &&
        (exponent.isEmpty || isExponent exponent.tail)
    | none, _ :: exponent => (whole? (cs.takeWhile (!mark ·))).isSome && isExponent exponent
    | none, [] => false

/-! ### Dates and times -/

/-- The value of exactly `n` digits. -/
def count? (n : Nat) (cs : List Char) : Option Nat :=
  if cs.length = n && cs.all Char.isDigit then some (valueOf 10 cs) else none

/-- The days of a month. -/
def daysOf (year month : Nat) : Nat :=
  if month = 2 then
    if year % 4 = 0 && (year % 100 ≠ 0 || year % 400 = 0) then 29 else 28
  else if [4, 6, 9, 11].contains month then 30
  else 31

/-- A date of the calendar. -/
def isDate (cs : List Char) : Bool :=
  match (pieces '-' cs) with
  | [year, month, day] =>
    match count? 4 year, count? 2 month, count? 2 day with
    | some y, some m, some d => 1 ≤ m && m ≤ 12 && 1 ≤ d && d ≤ daysOf y m
    | _, _, _ => false
  | _ => false

/-- A time of the day, with a fraction of the second or without one. -/
def isTime (cs : List Char) : Bool :=
  let fraction := cs.dropWhile (· ≠ '.')
  let fits := match fraction with
    | [] => true
    | _ :: digits => !digits.isEmpty && digits.all Char.isDigit
  match pieces ':' (cs.takeWhile (· ≠ '.')) with
  | [hour, minute, second] =>
    match count? 2 hour, count? 2 minute, count? 2 second with
    | some h, some m, some s => fits && h ≤ 23 && m ≤ 59 && s ≤ 60
    | _, _, _ => false
  | _ => false

/-- The distance of a clock from the standard one. -/
def isOffset (cs : List Char) : Bool :=
  match cs with
  | sign :: rest =>
    (sign = '+' || sign = '-') &&
      match pieces ':' rest with
      | [hour, minute] =>
        match count? 2 hour, count? 2 minute with
        | some h, some m => h ≤ 23 && m ≤ 59
        | _, _ => false
      | _ => false
  | [] => false

/-- A time of the day, on a clock with an offset or on the local one. -/
def isClockTime (cs : List Char) : Bool :=
  match cs.getLast? with
  | some 'Z' | some 'z' => isTime cs.dropLast
  | _ => isTime cs || (isTime (cs.take (cs.length - 6)) && isOffset (cs.drop (cs.length - 6)))

/-- A date, a time, or both. -/
def isMoment (cs : List Char) : Bool :=
  isDate cs || isTime cs ||
    (isDate (cs.take 10) &&
      match cs.drop 10 with
      | c :: time => (c = 'T' || c = 't' || c = ' ') && isClockTime time
      | [] => false)

/-! ### Texts without quotes -/

/-- A character of a text without quotes. -/
def isBareChar (c : Char) : Bool :=
  c.isAlphanum || "+-_.:".toList.contains c

/-- The value of a text without quotes. -/
def bareValue? (cs : List Char) : Option Value :=
  if cs = "true".toList then some (.boolean true)
  else if cs = "false".toList then some (.boolean false)
  else
    match integer? cs with
    | some n => some (.integer n)
    | none =>
      if isFloat cs then some .float
      else if isMoment cs then some .moment
      else none

/-- Reads a value without quotes. A blank between a date and a time belongs to it. -/
def bare? (cs : List Char) : Option (Value × List Char) :=
  let word := cs.takeWhile isBareChar
  let rest := cs.dropWhile isBareChar
  match isDate word, rest with
  | true, ' ' :: c :: more =>
    if c.isDigit then
      let time := (c :: more).takeWhile isBareChar
      (bareValue? (word ++ ' ' :: time)).map fun v => (v, (c :: more).dropWhile isBareChar)
    else some (.moment, rest)
  | _, _ => (bareValue? word).map fun v => (v, rest)

end DeploymentBackup.Toml
