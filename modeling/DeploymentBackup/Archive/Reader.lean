import DeploymentBackup.Archive.Header
import DeploymentBackup.Stream
import DeploymentBackup.Text.Lines

namespace DeploymentBackup.Archive

open Text

/-!
# Reading archives

The regular files of an archive, in order. Every other member is skipped, after the records
that describe a member to come (long names, attributes) have been applied to it. The reader
goes on to the next header before it trusts a member, so an archive that ends inside a
member is an error.

* `Fault` — why bytes are not an archive.
* `read` — the files of an archive.
-/

/-- Why bytes are not a readable archive. -/
inductive Fault
  /-- The input ends inside a block, or inside the contents of a member. -/
  | truncated
  /-- The source failed instead of ending. -/
  | source (message : String)
  /-- The header does not add up to the sum it declares. -/
  | checksum
  /-- A numeric field cannot be read. -/
  | number
  /-- Two records of one kind describe the same member. -/
  | repeatedRecord
  /-- A record describes a member that does not follow. -/
  | orphanRecord
  /-- The map of a sparse member is inconsistent. -/
  | sparse
deriving DecidableEq, Repr

/-- The text of a fault. -/
def Fault.message : Fault → String
  | .truncated => "unexpected end of archive"
  | .source message => message
  | .checksum => "archive header checksum mismatch"
  | .number => "numeric field in archive header is not octal"
  | .repeatedRecord => "two records describe the same member"
  | .orphanRecord => "a record describes a member that does not follow"
  | .sparse => "inconsistent map of a sparse member"

/-- A regular file of an archive. -/
structure File where
  path : Bytes
  contents : Bytes
deriving DecidableEq, Repr

/-! ### Attribute records -/

/-- One line `<length> <key>=<value>` of an attribute record; the length counts the line
    with its line feed. -/
def attribute? (line : Bytes) : Option (Bytes × Bytes) := do
  let (count, rest) ← cutAt 0x20 line
  let cs ← decodeChars? count
  let count ← unsigned? 10 cs
  if line.length + 1 = count then cutAt 0x3D rest else none

/-- The lines of an attribute record, up to the first empty one. -/
def attributeLines (record : Bytes) : List (Option (Bytes × Bytes)) :=
  ((pieces 0x0A record).takeWhile (· ≠ [])).map attribute?

/-- The path that a record gives: the first well-formed one. -/
def attributePath? (record : Bytes) : Option Bytes :=
  ((attributeLines record).filterMap id).find? (·.1 = encode "path") |>.map (·.2)

/-- The first `size` among lines, unless a malformed line precedes it. -/
def firstSize? : List (Option (Bytes × Bytes)) → Option Nat
  | some (key, value) :: rest =>
    if key = encode "size" then (decodeChars? value).bind (unsigned? 10) else firstSize? rest
  | _ => none

/-- The size that a record gives. -/
def attributeSize? (record : Bytes) : Option Nat :=
  firstSize? (attributeLines record)

/-! ### Records that describe the next member -/

/-- What the records read so far say about the next member. -/
structure Pending where
  longName : Option Bytes := none
  longLink : Bool := false
  attributes : Option Bytes := none
deriving DecidableEq

/-- No record waits for its member. -/
def Pending.isEmpty (p : Pending) : Bool :=
  p.longName.isNone && !p.longLink && p.attributes.isNone

/-- A long name ends in one NUL that is not part of it. -/
def dropNul (name : Bytes) : Bytes :=
  if name.getLast? = some 0 then name.dropLast else name

/-- The path of a member: the long name, the attribute, the header's own name. -/
def Pending.pathFor (p : Pending) (header : Bytes) : Bytes :=
  match p.longName with
  | some name => dropNul name
  | none => (p.attributes.bind attributePath?).getD (nameOf header)

/-- What a header announces. -/
inductive Kind
  | file
  | longName
  | longLink
  | attributes
  | sharedAttributes
  | sparse
  | other
deriving DecidableEq

/-- The kind of a header. Records that describe another member are known only to the
    layouts with a magic. -/
def kindOf (header : Bytes) : Kind :=
  let known := formatOf header ≠ .plain
  match (typeOf header).toNat with
  | 0 | 0x30 => .file
  | 0x4C => if known then .longName else .other
  | 0x4B => if known then .longLink else .other
  | 0x78 => if known then .attributes else .other
  | 0x67 => .sharedAttributes
  | 0x53 => .sparse
  | _ => .other

/-- The size of a member: the header's own, or the one its attributes give. The records
    that describe other members keep their own. -/
def Pending.sizeFor (p : Pending) (header : Bytes) : Except Fault Nat :=
  match number? (field header 124 12) with
  | none => .error .number
  | some size =>
    match kindOf header with
    | .longName | .longLink | .attributes | .sharedAttributes => .ok size
    | _ => .ok ((p.attributes.bind attributeSize?).getD size)

/-! ### Sparse members -/

/-- The walk over a sparse map: where the last piece ended and how much data is left. -/
structure SparseWalk where
  current : Nat
  remaining : Nat

/-- One piece of a sparse map, `size` being the data of the whole member. -/
def SparseWalk.step (size : Nat) (walk : SparseWalk) (piece : Bytes) : Except Fault SparseWalk :=
  let offset := piece.take 12
  let length := (piece.drop 12).take 12
  if offset.head? = some 0 ∨ length.head? = some 0 then .ok walk
  else
    match octal? offset, octal? length with
    | some off, some len =>
      if len ≠ 0 ∧ (size - walk.remaining) % blockSize ≠ 0 then .error .sparse
      else if off < walk.current ∨ UInt64.size ≤ off + len ∨ walk.remaining < len then
        .error .sparse
      else .ok ⟨off + len, walk.remaining - len⟩
    | _, _ => .error .number

/-- The pieces of a map that stand in `bytes`, 24 bytes each. -/
def sparsePieces (count : Nat) (bytes : Bytes) : List Bytes :=
  (List.range count).map fun i => field bytes (24 * i) 24

/-- Follows the map through its continuation blocks and gives the bytes behind them. -/
def sparseContinue (size : Nat) (walk : SparseWalk) (rest : Bytes) :
    Except Fault (SparseWalk × Bytes) :=
  if _h : rest.length < blockSize then .error .truncated
  else do
    let block := rest.take blockSize
    let walk ← (sparsePieces 21 block).foldlM (SparseWalk.step size) walk
    if block.getD 504 0 = 1 then sparseContinue size walk (rest.drop blockSize)
    else return (walk, rest.drop blockSize)
termination_by rest.length
decreasing_by simp only [List.length_drop, blockSize] at *; omega

/-- Checks the map of a sparse member and gives the bytes behind its continuation. -/
def sparseData (header : Bytes) (size : Nat) (rest : Bytes) : Except Fault Bytes :=
  if formatOf header ≠ .extended then .error .sparse
  else do
    let walk ← (sparsePieces 4 (header.drop 386)).foldlM (SparseWalk.step size) ⟨0, size⟩
    let (walk, rest) ←
      if header.getD 482 0 = 1 then sparseContinue size walk rest else pure (walk, rest)
    match octal? (field header 483 12) with
    | none => .error .number
    | some real => if walk.current = real ∧ walk.remaining = 0 then .ok rest else .error .sparse

/-! ### Members -/

/-- The bytes behind the contents of a member and their padding. -/
def skip (size : Nat) (rest : Bytes) : Except Fault Bytes :=
  let whole := size + paddingOf size
  if rest.length < whole then .error .truncated else .ok (rest.drop whole)

/-- One member: what it leaves for the next one, the file it holds, and the bytes behind. -/
def readMember (pending : Pending) (header rest : Bytes) :
    Except Fault (Pending × Option File × Bytes) := do
  if octal? (field header 148 8) ≠ some (headerSum header) then throw .checksum
  let size ← pending.sizeFor header
  let data := rest.take size
  match kindOf header with
  | .longName =>
    if pending.longName.isSome then throw .repeatedRecord
    return ({ pending with longName := some data }, none, ← skip size rest)
  | .longLink =>
    if pending.longLink then throw .repeatedRecord
    return ({ pending with longLink := true }, none, ← skip size rest)
  | .attributes =>
    if pending.attributes.isSome then throw .repeatedRecord
    return ({ pending with attributes := some data }, none, ← skip size rest)
  | .file => return ({}, some ⟨pending.pathFor header, data⟩, ← skip size rest)
  | .sparse => return ({}, none, ← skip size (← sparseData header size rest))
  | .sharedAttributes | .other => return ({}, none, ← skip size rest)

/-- The files from a member boundary on. An empty block ends the archive, and so does the
    end of the input where a header would start. -/
def readFrom (ending : Ending) (pending : Pending) (bytes : Bytes) : Except Fault (List File) :=
  if _h : bytes = [] then
    match ending with
    | .broken message => .error (.source message)
    | .clean => if pending.isEmpty then .ok [] else .error .orphanRecord
  else if bytes.length < blockSize then
    match ending with
    | .broken message => .error (.source message)
    | .clean => .error .truncated
  else
    let header := bytes.take blockSize
    if header.all (· == 0) then
      if pending.isEmpty then .ok [] else .error .orphanRecord
    else
      match readMember pending header (bytes.drop blockSize) with
      | .error fault => .error fault
      | .ok (pending, file, rest) =>
        -- A member never gives back more bytes than it was given.
        if rest.length < bytes.length then
          (readFrom ending pending rest).map (file.toList ++ ·)
        else .error .truncated
termination_by bytes.length

/-- The regular files of the archive that a source delivers, in order. -/
def readSource (source : Source) : Except Fault (List File) :=
  readFrom source.ending {} source.bytes

/-- The regular files of an archive, in order. -/
def read (bytes : Bytes) : Except Fault (List File) :=
  readSource (.of bytes)

end DeploymentBackup.Archive
