import DeploymentBackup.Text.Blank
import DeploymentBackup.Text.Utf8

namespace DeploymentBackup.Archive

open Text

/-!
# Archive headers

An archive is a sequence of 512-byte blocks. Each member starts with a header block, whose
fields stand at fixed offsets; numbers are octal text, or binary when they are large.

* `field` — the bytes of one field.
* `octal?`, `number?` — the value of a numeric field.
* `headerSum` — the sum that protects a header, with its own field read as spaces.
* `Format` — which of the header layouts a block declares by its magic.
-/

/-- The size of a block. -/
def blockSize : Nat := 512

/-- Bytes needed to fill the last block of `n` bytes. -/
def paddingOf (n : Nat) : Nat :=
  (blockSize - n % blockSize) % blockSize

/-- The bytes of the field at `offset`. -/
def field (header : Bytes) (offset length : Nat) : Bytes :=
  (header.drop offset).take length

/-- The bytes before the first NUL. -/
def cut (bytes : Bytes) : Bytes :=
  bytes.takeWhile (· != 0)

/-- The value of digits in a base up to ten; none when there is no digit or a wrong one. -/
def digits? (base : Nat) (cs : List Char) : Option Nat :=
  if cs.isEmpty then none
  else cs.foldl (fun value c => do
    let value ← value
    if '0' ≤ c ∧ c.toNat < '0'.toNat + base then some (value * base + (c.toNat - '0'.toNat))
    else none) (some 0)

/-- An unsigned number of 64 bits in a base up to ten, with an optional plus sign. -/
def unsigned? (base : Nat) (cs : List Char) : Option Nat := do
  let value ← digits? base (match cs with | '+' :: rest => rest | cs => cs)
  if value < UInt64.size then some value else none

/-- The value of an octal field: cut at the first NUL, blanks around the digits. -/
def octal? (bytes : Bytes) : Option Nat := do
  let cs ← decodeChars? (cut bytes)
  unsigned? 8 (trimChars cs)

/-- The value of a size field: octal text, or its last eight bytes when the first byte has
    its high bit set. -/
def number? (bytes : Bytes) : Option Nat :=
  match bytes with
  | first :: _ =>
    if first.toNat < 0x80 then octal? bytes
    else some ((bytes.drop 4).foldl (fun value b => value * 256 + b.toNat) 0)
  | [] => none

/-- The sum of the bytes of a header with its checksum field read as eight spaces. `others` are
    the bytes outside that field. -/
def sumOfOthers (others : Bytes) : Nat :=
  others.foldl (fun sum b => sum + b.toNat) (8 * 32)

/-- The sum of the bytes of a header, its checksum field counted as eight spaces. -/
def headerSum (header : Bytes) : Nat :=
  sumOfOthers (header.take 148 ++ header.drop 156)

/-- The header layouts. -/
inductive Format
  /-- No magic: the plain layout. -/
  | plain
  /-- Magic `ustar` and NUL, version `00`: the name may be split into prefix and name. -/
  | split
  /-- Magic `ustar` with two spaces: long names and sparse maps. -/
  | extended
deriving DecidableEq, Repr

/-- The layout that a header declares. -/
def formatOf (header : Bytes) : Format :=
  let magic := field header 257 8
  if magic = encode "ustar\x0000" then .split
  else if magic = encode "ustar  \x00" then .extended
  else .plain

/-- The type byte of a header. -/
def typeOf (header : Bytes) : UInt8 :=
  header.getD 156 0

/-- The name that a header gives to its member. -/
def nameOf (header : Bytes) : Bytes :=
  let name := cut (field header 0 100)
  let lead := cut (field header 345 155)
  if formatOf header = .split ∧ lead ≠ [] then lead ++ encode "/" ++ name else name

end DeploymentBackup.Archive
