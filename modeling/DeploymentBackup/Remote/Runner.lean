import DeploymentBackup.Stream
import DeploymentBackup.Text.Blank

namespace DeploymentBackup

open Text

/-!
# Running remote commands

Everything that happens on a remote host is a command with a text, run in one of three ways:
its output is collected, its output flows to a receiver, or a source flows to its input.
Running a command changes the world `W` that the runner lives in.

* `Remote.Output`, `Remote.Ended` — what a command leaves behind.
* `Remote.Fault` — why there is nothing of that kind.
* `Runner` — the three ways.
* `Runner.within` — a runner in a part of the world.
-/

namespace Remote

/-- Why a command left no exit status. -/
inductive Fault
  /-- The program that reaches the host could not be started. -/
  | spawn (program message : String)
  /-- Its input or output failed. -/
  | io (command message : String)
  /-- It was ended by a signal. -/
  | missingExitCode (command : String)
deriving DecidableEq, Repr

/-- The text of a fault. -/
def Fault.message : Fault → String
  | .spawn program message => "failed to spawn " ++ program ++ ": " ++ message
  | .io command message => "stream failure while running `" ++ command ++ "`: " ++ message
  | .missingExitCode command => "`" ++ command ++ "` terminated without an exit status"

/-- How a command ended: its exit status and what it wrote to its error output. -/
structure Ended where
  exitCode : Int
  stderr : Bytes
deriving DecidableEq, Repr

/-- A command that ended, with its output. -/
structure Output extends Ended where
  stdout : Bytes
deriving DecidableEq, Repr

/-- The exit status of success. -/
def Ended.success (e : Ended) : Bool :=
  e.exitCode = 0

/-- The error output as text, without the blanks around it. -/
def Ended.stderrText (e : Ended) : String :=
  trim (decodeLossy e.stderr)

/-- The output as text. -/
def Output.stdoutText (o : Output) : String :=
  decodeLossy o.stdout

end Remote

/-- A way to run commands on one host. -/
structure Runner (W : Type) where
  /-- Runs a command and collects its output. -/
  run : String → W → Except Remote.Fault Remote.Output × W
  /-- Runs a command whose output flows to a receiver; gives what the receiver took. -/
  stream : String → Sink → W → (Bytes × Except Remote.Fault Remote.Ended) × W
  /-- Runs a command whose input comes from a source. -/
  feed : String → Source → W → Except Remote.Fault Remote.Ended × W

/-- A runner that lives in a part of the world. -/
def Runner.within {W V : Type} (part : V → W) (put : W → V → V) (r : Runner W) : Runner V where
  run := fun command v => ((r.run command (part v)).1, put (r.run command (part v)).2 v)
  stream := fun command sink v =>
    ((r.stream command sink (part v)).1, put (r.stream command sink (part v)).2 v)
  feed := fun command source v =>
    ((r.feed command source (part v)).1, put (r.feed command source (part v)).2 v)

end DeploymentBackup
