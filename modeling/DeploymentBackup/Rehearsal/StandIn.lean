import DeploymentBackup.Archive.Writer
import DeploymentBackup.Digests.Archive
import DeploymentBackup.Disk.Change
import DeploymentBackup.Instance.Basic

namespace DeploymentBackup.Rehearsal

open Text

/-!
# Stand-ins for instances

A stand-in behaves as it is told: what it is capable of, in which phases it fails, what its
blobs hold and report, and what else happens when it is called.

* `HeldBlob` — a blob of a stand-in, with what it received.
* `Trap` — what happens before a call is carried out.
* `StandIn` — an instance.
-/

/-! ### Blobs -/

/-- A blob: what it holds at first, what it received last, and how it misbehaves. -/
structure HeldBlob where
  id : Identifier
  payload : Bytes
  /-- What it reports as its digests, if it was told. -/
  reported : Option (Except Instance.Fault Digests)
  /-- Why no transfer succeeds. -/
  transferFault : Option Instance.Fault
  received : Option Bytes

namespace HeldBlob

/-- A blob that holds the archive of files. -/
def ofFiles (id : Identifier) (files : List (String × Bytes)) : HeldBlob :=
  ⟨id, Archive.write files, none, none, none⟩

/-- What it tells as its size. -/
def size (b : HeldBlob) : String :=
  toString b.payload.length ++ "B"

/-- The digests of what it holds now, unless it was told what to report. -/
def digests (b : HeldBlob) : Except Instance.Fault Digests :=
  match b.reported with
  | some result => result
  | none => (Digests.ofArchive (b.received.getD b.payload)).mapError .checksum

/-- What a receiver gets of it. -/
def fetch (b : HeldBlob) (sink : Sink) : Bytes × Except Instance.Fault Unit :=
  match b.transferFault with
  | some fault => ([], .error fault)
  | none =>
    match sink.take b.payload with
    | (taken, none) => (taken, .ok ())
    | (taken, some message) => (taken, .error (.remote (.io "fake stream" message)))

/-- Takes what a source delivers; nothing changes unless that is all of it. -/
def replace (b : HeldBlob) (source : Source) : Except Instance.Fault Unit × HeldBlob :=
  match b.transferFault with
  | some fault => (.error fault, b)
  | none =>
    match source.readAll with
    | .error message => (.error (.remote (.io "fake upload" message)), b)
    | .ok bytes => (.ok (), { b with received := some bytes })

end HeldBlob

/-! ### Instances -/

/-- The calls before which something can happen. -/
inductive Call
  | act (phase : Phase)
  | blobs
  | isRestorable
deriving DecidableEq, Repr

/-- What happens before a call: the disk is changed, and the call may end right there. -/
structure Trap where
  changes : List Disk.Change
  ending : Option Halt

/-- An instance that behaves as it is told. -/
structure StandIn where
  id : Identifier
  /-- It knows locks around a restore. -/
  locksRestore : Bool
  /-- Its answers about phases; to others it says that it is capable. -/
  answers : List (Phase × Except Instance.Fault Bool)
  /-- The phases in which it fails. -/
  failures : List (Phase × Instance.Fault)
  traps : List (Call × Trap)
  blobs : List HeldBlob

namespace StandIn

/-- A stand-in that is capable of everything and holds nothing. -/
def of (id : Identifier) : StandIn :=
  ⟨id, true, [], [], [], []⟩

/-- Its answer about a phase; the last one that it was told counts. -/
def answer (s : StandIn) (phase : Phase) : Except Instance.Fault Bool :=
  (s.answers.lookup phase).getD (.ok true)

/-- Tells it an answer. -/
def tell (s : StandIn) (phase : Phase) (answer : Except Instance.Fault Bool) : StandIn :=
  { s with answers := (phase, answer) :: s.answers }

/-- Makes it fail in a phase. -/
def fail (s : StandIn) (phase : Phase) (cause : Instance.Fault) : StandIn :=
  { s with failures := (phase, cause) :: s.failures }

/-- Gives it one more blob. -/
def hold (s : StandIn) (b : HeldBlob) : StandIn :=
  { s with blobs := s.blobs ++ [b] }

/-- Changes one of its blobs. -/
def changeBlob (s : StandIn) (n : Nat) (change : HeldBlob → HeldBlob) : StandIn :=
  { s with blobs := s.blobs.modify n change }

end StandIn

end DeploymentBackup.Rehearsal
