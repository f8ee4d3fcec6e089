import DeploymentBackup.Shell.Arithmetic
import DeploymentBackup.Text.Utf8

namespace DeploymentBackup.Shell

open Text

/-!
# Printed formats

The commands `echo` and `printf` print texts in which a backslash introduces a character
that is hard to write.

* `escape` — one such character.
* `unescape` — a text with such characters.
* `format` — a format with its arguments.
-/

/-- The characters behind a backslash and what they stand for. -/
def escapes : List (Char × Char) :=
  [('\\', '\\'), ('a', '\x07'), ('b', '\x08'), ('f', '\x0c'), ('n', '\n'), ('r', '\r'), ('t', '\t'),
   ('v', '\x0b')]

/-- A digit of a number in base eight. -/
def isOctal (c : Char) : Bool :=
  '0' ≤ c && c ≤ '7'

/-- The byte of at most three octal digits, and what is behind them. -/
def octalByte (cs : List Char) : UInt8 × List Char :=
  let digits := (cs.take 3).takeWhile isOctal
  (((valueIn 8 digits).getD 0).toUInt8, cs.drop digits.length)

/-- The byte that the characters behind a backslash stand for, and what is behind them. An
    unknown character keeps its backslash. -/
def escape (cs : List Char) : UInt8 × List Char :=
  match cs with
  | [] => ('\\'.toNat.toUInt8, [])
  | c :: rest =>
    if isOctal c then octalByte cs
    else
      match escapes.lookup c with
      | some d => (d.toNat.toUInt8, rest)
      | none => ('\\'.toNat.toUInt8, cs)

/-- A text with escaped characters as bytes, and whether it asked to print nothing more;
    `fuel` bounds its length. -/
def unescape : (fuel : Nat) → List Char → Bytes × Bool
  | 0, _ => ([], false)
  | _, [] => ([], false)
  | fuel + 1, '\\' :: rest =>
    match rest with
    | 'c' :: _ => ([], true)
    | '0' :: rest =>
      let (b, rest) := if rest.head?.any isOctal then octalByte rest else (0, rest)
      let (more, stop) := unescape fuel rest
      (b :: more, stop)
    | rest =>
      let (b, rest) := escape rest
      let (more, stop) := unescape fuel rest
      (b :: more, stop)
  | fuel + 1, c :: rest =>
    let (more, stop) := unescape fuel rest
    (encode (String.singleton c) ++ more, stop)

/-! ### Formats -/

/-- How an argument is printed. -/
structure Directive where
  left : Bool
  zeros : Bool
  plus : Bool
  width : Nat
  precision : Option Nat
  letter : Char

/-- Reads a number in front. -/
def countOf (cs : List Char) : Nat × List Char :=
  (((valueIn 10 (cs.takeWhile Char.isDigit)).getD 0), cs.dropWhile Char.isDigit)

/-- Reads a directive behind its percent sign. -/
def Directive.of? (cs : List Char) : Option (Directive × List Char) :=
  let flags := cs.takeWhile fun c => "-0+ #".toList.contains c
  let (width, rest) := countOf (cs.drop flags.length)
  let (precision, rest) := match rest with
    | '.' :: rest =>
      let (n, rest) := countOf rest
      (some n, rest)
    | rest => (none, rest)
  match rest with
  | letter :: rest =>
    some (⟨flags.contains '-', flags.contains '0', flags.contains '+', width, precision, letter⟩,
      rest)
  | [] => none

/-- Bytes in a field of the width of a directive. -/
def Directive.pad (d : Directive) (bytes : Bytes) : Bytes :=
  let fill := List.replicate (d.width - bytes.length)
  if d.left then bytes ++ fill 0x20 else fill 0x20 ++ bytes

/-- The digits of a number in a base. -/
def digitsOf (base : Nat) (upper : Bool) (n : Nat) : List Char :=
  (Nat.toDigits base n).map fun c => if upper then c.toUpper else c

/-- The text of an integer. -/
def Directive.integer (d : Directive) (n : Int) : Bytes :=
  let digits :=
    match d.letter with
    | 'x' => digitsOf 16 false n.toNat
    | 'X' => digitsOf 16 true n.toNat
    | 'o' => digitsOf 8 false n.toNat
    | _ => digitsOf 10 false n.natAbs
  let sign := if n < 0 then ['-'] else if d.plus then ['+'] else []
  let digits := List.replicate ((d.precision.getD 0) - digits.length) '0' ++ digits
  let zeros := if d.zeros && !d.left && d.precision.isNone then
    d.width - digits.length - sign.length else 0
  d.pad (encode (String.ofList (sign ++ List.replicate zeros '0' ++ digits)))

/-- The integer that an argument spells; a quote asks for the number of a character. -/
def argumentInt? (arg : String) : Option Int :=
  match arg.toList with
  | [] => some 0
  | '"' :: c :: _ | '\'' :: c :: _ => some c.toNat
  | cs => spelledInt? (cs.dropWhile (· = ' '))

/-- What a turn through a format printed, the arguments that are left, whether printing ends
    here, and the arguments that were no numbers. -/
structure Printed where
  bytes : Bytes
  left : List String
  stop : Bool
  refused : List String

/-- More bytes in front. -/
def Printed.behind (bytes : Bytes) (p : Printed) : Printed :=
  { p with bytes := bytes ++ p.bytes }

/-- One turn through a format; `fuel` bounds its length. -/
def formatOnce : (fuel : Nat) → List Char → List String → Printed
  | 0, _, args => ⟨[], args, false, []⟩
  | _, [], args => ⟨[], args, false, []⟩
  | fuel + 1, '\\' :: rest, args =>
    match rest with
    | 'c' :: _ => ⟨[], args, true, []⟩
    | rest =>
      let (b, rest) := escape rest
      (formatOnce fuel rest args).behind [b]
  | fuel + 1, '%' :: '%' :: rest, args => (formatOnce fuel rest args).behind (encode "%")
  | fuel + 1, '%' :: rest, args =>
    match Directive.of? rest with
    | none => (formatOnce fuel [] args).behind (encode "%")
    | some (d, rest) =>
      let arg := args.headD ""
      let cut (bytes : Bytes) := d.precision.elim bytes bytes.take
      match d.letter with
      | 's' => (formatOnce fuel rest args.tail).behind (d.pad (cut (encode arg)))
      | 'c' => (formatOnce fuel rest args.tail).behind (d.pad ((encode arg).take 1))
      | 'b' =>
        let (bytes, stop) := unescape arg.length arg.toList
        if stop then ⟨d.pad (cut bytes), [], true, []⟩
        else (formatOnce fuel rest args.tail).behind (d.pad (cut bytes))
      | _ =>
        let p := (formatOnce fuel rest args.tail).behind (d.integer ((argumentInt? arg).getD 0))
        if (argumentInt? arg).isSome then p else { p with refused := arg :: p.refused }
  | fuel + 1, c :: rest, args =>
    (formatOnce fuel rest args).behind (encode (String.singleton c))

/-- A format is gone through until no arguments are left, and once at least; `fuel` bounds
    the number of turns. -/
def formatAll : (fuel : Nat) → List Char → List String → Printed
  | 0, _, args => ⟨[], args, false, []⟩
  | fuel + 1, cs, args =>
    let p := formatOnce cs.length cs args
    if p.stop || p.left.isEmpty || p.left.length = args.length then p
    else
      let q := formatAll fuel cs p.left
      ⟨p.bytes ++ q.bytes, q.left, q.stop, p.refused ++ q.refused⟩

/-- The text of a format with its arguments. -/
def format (text : String) (args : List String) : Printed :=
  formatAll (args.length + 1) text.toList args

end DeploymentBackup.Shell
