import DeploymentBackup.Disk.Change
import DeploymentBackup.Shell.Command
import DeploymentBackup.Text.Blank

namespace DeploymentBackup.Shell

open Text

/-!
# A running shell

* `Channel` — where a descriptor leads.
* `Session` — the variables, the descriptors, the data that flows, and the disk.
* `Flow` — how the shell goes on behind a command.
* `Session.write`, `Session.read` — output and input.
-/

/-- Where a descriptor leads. -/
inductive Channel
  | nothing
  /-- Bytes that wait to be read. -/
  | input (number : Nat)
  /-- Bytes that are collected. -/
  | output (number : Nat)
  | file (path : Path)
deriving DecidableEq, Repr

/-- A running shell. Outputs are kept with the last piece first. -/
structure Session where
  /-- The name under which it runs. -/
  name : String
  arguments : List String
  /-- The values of the variables. -/
  values : List (String × String)
  /-- The commands that were given a name. -/
  functions : List (String × Command)
  status : Nat
  /-- A command that fails ends the shell. -/
  strict : Bool
  /-- The number of line ends of the program. -/
  lines : Nat
  channels : List (Nat × Channel)
  inputs : List Bytes
  outputs : List (List Bytes)
  /-- How many bytes the first output may still take. -/
  room : Option Nat
  disk : Disk

/-- How the shell goes on behind a command. -/
inductive Flow
  | next
  | exit
  /-- Goes back to where a function was called. -/
  | back
  | killed
  /-- Leaves loops. -/
  | leave (loops : Nat)
  /-- Starts the next turn of a loop, and leaves those inside it. -/
  | again (loops : Nat)
  /-- The first output is full: the shell is ended from outside. -/
  | full
deriving DecidableEq, Repr

namespace Session

/-- A new shell with an input; the outputs 0 and 1 are its output and its error output. -/
def start (name : String) (arguments : List String) (input : Bytes) (room : Option Nat)
    (disk : Disk) : Session where
  name := name
  arguments := arguments
  values := []
  functions := []
  status := 0
  strict := false
  lines := 0
  channels := [(0, .input 0), (1, .output 0), (2, .output 1)]
  inputs := [input]
  outputs := [[], []]
  room := room
  disk := disk

/-- The number that the shell has as a process. -/
def processNumber : String := "4096"

/-- The value of a variable. -/
def assigned? (s : Session) (name : String) : Option String :=
  s.values.lookup name

/-- Gives a variable a value. -/
def assign (s : Session) (name value : String) : Session :=
  { s with values := (name, value) :: s.values.filter (·.1 ≠ name) }

/-- Gives a command a name. -/
def define (s : Session) (name : String) (body : Command) : Session :=
  { s with functions := (name, body) :: s.functions.filter (·.1 ≠ name) }

/-- The shell with the status of its last command. -/
def ended (s : Session) (status : Nat) : Flow × Session :=
  (.next, { s with status := status })

/-! ### Output -/

/-- What was written to an output. -/
def collected (s : Session) (output : Nat) : Bytes :=
  ((s.outputs[output]?.getD []).reverse).flatten

/-- Adds bytes to an output, as far as there is room. -/
def collect (s : Session) (output : Nat) (bytes : Bytes) : Flow × Session :=
  let put (s : Session) (bytes : Bytes) : Session :=
    { s with outputs := s.outputs.modify output (bytes :: ·) }
  match (if output = 0 then s.room else none) with
  | none => (.next, put s bytes)
  | some room =>
    if bytes.length ≤ room then (.next, { put s bytes with room := some (room - bytes.length) })
    else (.full, { put s (bytes.take room) with room := some 0 })

/-- Adds bytes to a file. -/
def appendTo (s : Session) (path : Path) (bytes : Bytes) : Session :=
  match s.disk.get? path with
  | some (.file contents executable) =>
    { s with disk := s.disk.set path (.file (contents ++ bytes) executable) }
  | _ => s

/-- Writes bytes to a descriptor. -/
def write (s : Session) (descriptor : Nat) (bytes : Bytes) : Flow × Session :=
  if bytes.isEmpty then (.next, s)
  else
    match s.channels.lookup descriptor with
    | some (.output n) => s.collect n bytes
    | some (.file path) => (.next, s.appendTo path bytes)
    | _ => (.next, s)

/-- Writes a line to the error output and sets the status. -/
def complain (s : Session) (status : Nat) (text : String) : Flow × Session :=
  let (flow, s) := s.write 2 (encode (text ++ "\n"))
  (flow, { s with status := status })

/-- Writes bytes and sets the status. -/
def answer (s : Session) (bytes : Bytes) (status : Nat) : Flow × Session :=
  let (flow, s) := s.write 1 bytes
  (flow, { s with status := status })

/-- Bytes that never end, written to the output: all that there is room for, and in a pipe
    more than fits into one. -/
def pour (s : Session) (unit : Bytes) : Flow × Session :=
  let enough := match s.channels.lookup 1, s.room with
    | some (.output 0), some room => room / unit.length + 1
    | _, _ => 0x100000 / unit.length
  let (flow, s) := s.write 1 (List.replicate enough unit).flatten
  (flow, { s with status := 1 })

/-! ### Input -/

/-- The bytes that wait at a descriptor. -/
def waiting (s : Session) (descriptor : Nat) : Bytes :=
  match s.channels.lookup descriptor with
  | some (.input n) => s.inputs[n]?.getD []
  | _ => []

/-- Leaves only the given bytes waiting at a descriptor. -/
def leaveWaiting (s : Session) (descriptor : Nat) (bytes : Bytes) : Session :=
  match s.channels.lookup descriptor with
  | some (.input n) => { s with inputs := s.inputs.set n bytes }
  | _ => s

/-- Takes everything that waits at the input. -/
def read (s : Session) : Bytes × Session :=
  (s.waiting 0, s.leaveWaiting 0 [])

/-! ### Descriptors -/

/-- Lets a descriptor lead somewhere. -/
def connect (s : Session) (descriptor : Nat) (channel : Channel) : Session :=
  { s with channels := (descriptor, channel) :: s.channels.filter (·.1 ≠ descriptor) }

/-- A new input with bytes that wait. -/
def newInput (s : Session) (bytes : Bytes) : Channel × Session :=
  (.input s.inputs.length, { s with inputs := s.inputs ++ [bytes] })

/-- A new output. -/
def newOutput (s : Session) : Nat × Session :=
  (s.outputs.length, { s with outputs := s.outputs ++ [[]] })

/-- What another process leaves behind of its own state: data, the disk, the room. -/
def returnTo (s outer : Session) : Session :=
  { outer with
    status := s.status
    inputs := s.inputs
    outputs := s.outputs
    room := s.room
    disk := { s.disk with workdir := outer.disk.workdir } }

/-- A text for the line of the command that has `behind` line ends behind it. -/
def located (s : Session) (behind : Nat) (text : String) : String :=
  s.name ++ ": " ++ toString (s.lines - behind + 1) ++ ": " ++ text

end Session

/-- The reason for a fault, in the words of a shell. -/
def reason (fault : Disk.Fault) : String :=
  match cutAt '(' fault.message.toList with
  | some (text, _) => String.ofList (dropEndWhile (· = ' ') text)
  | none => fault.message

end DeploymentBackup.Shell
