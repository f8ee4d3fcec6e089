import DeploymentBackup.Archive.Header
import DeploymentBackup.Text.Lines

namespace DeploymentBackup.Archive

open Text

/-!
# Writing archives

An archive of regular files: for each file a header and its contents, padded to whole
blocks, and two empty blocks at the end. A path that does not fit the 100 bytes of the name
field is carried in a record of its own before the header.

* `storedName?` — the name that a path has in its header, when it is admissible.
* `write?` — the archive of a list of files, or none when a path is not admissible.
* `write` — the same, with no bytes at all for an inadmissible path.
-/

/-- `n` as `width` octal digits. -/
def octalDigits : (width n : Nat) → List Char
  | 0, _ => []
  | width + 1, n => octalDigits width (n / 8) ++ [Nat.digitChar (n % 8)]

/-- A numeric field of `width` bytes: octal digits and a NUL. -/
def octalField (width n : Nat) : Bytes :=
  encodeChars (octalDigits (width - 1) n) ++ [0]

/-- `n` in `width` bytes, the most significant one first. -/
def bigEndian : (width n : Nat) → Bytes
  | 0, _ => []
  | width + 1, n => bigEndian width (n / 256) ++ [UInt8.ofNat (n % 256)]

/-- The largest number that eleven octal digits can write. -/
def largestOctal : Nat := 0o77777777777

/-- A size field: octal text, or the bytes of the number when it has too many digits. The high
    bit of the first byte marks the latter. -/
def sizeField (n : Nat) : Bytes :=
  if n ≤ largestOctal then octalField 12 n else [0x80, 0, 0, 0] ++ bigEndian 8 n

/-- `bytes` filled up with NULs to `width`. -/
def fill (width : Nat) (bytes : Bytes) : Bytes :=
  bytes ++ List.replicate (width - bytes.length) 0

/-- The part of a header before its checksum field. -/
def headerFront (name owner : Bytes) (size : Nat) : Bytes :=
  fill 100 name ++ octalField 8 0o644 ++ fill 16 owner ++ sizeField size ++ octalField 12 0

/-- The part of a header behind its checksum field. -/
def headerBack (type : UInt8) : Bytes :=
  [type] ++ fill 100 [] ++ fill 255 (encode "ustar  \x00")

/-- A header block; `owner` fills the two fields of the owner. -/
def header (name owner : Bytes) (size : Nat) (type : UInt8) : Bytes :=
  let front := headerFront name owner size
  let back := headerBack type
  front ++ octalField 8 (sumOfOthers (front ++ back)) ++ back

/-- Contents padded to whole blocks. -/
def body (contents : Bytes) : Bytes :=
  contents ++ List.replicate (paddingOf contents.length) 0

/-- A component of a relative path. -/
inductive Component
  | here
  | parent
  | name (cs : List Char)
deriving DecidableEq

/-- The component that a part between slashes stands for. -/
def Component.of (part : List Char) : Component :=
  if part = ['.'] then .here else if part = ['.', '.'] then .parent else .name part

/-- The text of a component; `.` has one only when it stands alone. -/
def Component.text? (alone : Bool) : Component → Option (List Char)
  | .here => if alone then some ['.'] else none
  | .parent => some ['.', '.']
  | .name cs => some cs

/-- The components of a relative path. Empty components vanish, and so does a `.` that is
    not the first one. -/
def components (path : List Char) : List Component :=
  let parts := pieces '/' path
  let rest := (parts.drop 1).filter fun part => part ≠ [] ∧ part ≠ ['.']
  let kept := (parts.take 1).filter (· ≠ []) ++ rest
  kept.map Component.of

/-- The name of a path in a header: its components joined by slashes, without a leading
    `.` unless it stands alone, and with a final slash where the path has one. None for a
    path that is absolute, has no component or holds a NUL or a parent component. The last
    component of a path that has been `shortened` may be a parent: the rest of it is
    stored elsewhere. -/
def storedName? (shortened : Bool) (path : List Char) : Option (List Char) :=
  let parts := components path
  let climbs := if shortened then parts.dropLast.contains .parent else parts.contains .parent
  if path.head? = some '/' ∨ parts = [] ∨ climbs ∨ path.contains '\x00' then none
  else
    let texts := parts.filterMap (Component.text? (parts.length = 1))
    let joined := ['/'].intercalate texts
    some (if path.getLast? = some '/' then joined ++ ['/'] else joined)

/-- The longest start of `path` that is written in at most `limit` bytes. -/
def fitting : (limit : Nat) → List Char → List Char
  | _, [] => []
  | limit, c :: rest => if c.utf8Size ≤ limit then c :: fitting (limit - c.utf8Size) rest else []

/-- The record that carries a path too long for the name field. -/
def longName (path : Bytes) : Bytes :=
  header (encode "././@LongLink") (octalField 8 0 ++ octalField 8 0) (path.length + 1) 0x4C ++
    body (path ++ [0])

/-- The blocks of one file. -/
def file? (path : String) (contents : Bytes) : Option Bytes :=
  let given := encode path
  let short := (storedName? false path.toList).filter fun name => (encodeChars name).length ≤ 100
  match short with
  | some name => some (header (encodeChars name) [] contents.length 0 ++ body contents)
  | none =>
    if given.length < 100 then none
    else do
      let name ← storedName? true (fitting 100 path.toList)
      some (longName given ++ header (encodeChars name) [] contents.length 0 ++ body contents)

/-- The end of an archive: two empty blocks. -/
def endMark : Bytes :=
  List.replicate (2 * blockSize) 0

/-- The archive of a list of files. -/
def write? (files : List (String × Bytes)) : Option Bytes := do
  let blocks ← files.mapM fun (path, contents) => file? path contents
  some (blocks.flatten ++ endMark)

/-- The archive of a list of files; nothing is written when one path is inadmissible. -/
def write (files : List (String × Bytes)) : Bytes :=
  (write? files).getD []

end DeploymentBackup.Archive
