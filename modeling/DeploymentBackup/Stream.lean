import DeploymentBackup.Text.Utf8

namespace DeploymentBackup

open Text

/-!
# Streams

Data moves as a stream of bytes. A source may fail instead of ending, and a receiver may
have room for a limited number of bytes.

* `Source`, `Source.readAll` — where bytes come from.
* `Sink`, `Sink.take` — where bytes go to.
-/

/-- How a source behaves behind its last byte. -/
inductive Ending
  | clean
  | broken (message : String)
deriving DecidableEq, Repr

/-- The bytes that a source delivers, and what comes behind them. -/
structure Source where
  bytes : Bytes
  ending : Ending
deriving DecidableEq, Repr

/-- A source that ends behind its bytes. -/
def Source.of (bytes : Bytes) : Source :=
  ⟨bytes, .clean⟩

/-- All bytes of a source, or the message of its failure. -/
def Source.readAll (s : Source) : Except String Bytes :=
  match s.ending with
  | .clean => .ok s.bytes
  | .broken message => .error message

/-- A receiver of bytes with room for a limited number, or for any. -/
structure Sink where
  room : Option Nat
deriving DecidableEq, Repr

/-- A receiver with room for any number of bytes. -/
def Sink.unlimited : Sink :=
  ⟨none⟩

/-- The message of a receiver that has no room left. -/
def Sink.fullMessage : String :=
  "sink full"

/-- The bytes that a receiver takes, and a message when these are not all. -/
def Sink.take (s : Sink) (bytes : Bytes) : Bytes × Option String :=
  match s.room with
  | none => (bytes, none)
  | some room =>
    if bytes.length ≤ room then (bytes, none) else (bytes.take room, some Sink.fullMessage)

end DeploymentBackup
