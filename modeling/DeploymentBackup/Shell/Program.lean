import DeploymentBackup.Remote.Runner
import DeploymentBackup.Shell.Run

namespace DeploymentBackup.Shell.Program

open Text Remote

/-!
# Programs of the local machine

A program is found by its path, or by its name among the utilities, and is given its
arguments, an input and receivers for what it writes.

* `find` — the program of a name or path, or why it cannot be started.
* `run`, `stream`, `feed` — a program whose output is collected, whose output flows to a
  receiver, or whose input comes from a source.
-/

/-- Why a program cannot be started. -/
inductive StartFault
  | disk (fault : Disk.Fault)
  /-- The file is no program. -/
  | format
  /-- The name or an argument holds the character that ends texts. -/
  | nul
deriving DecidableEq, Repr

/-- The text of a fault. -/
def StartFault.message : StartFault → String
  | .disk fault => fault.message
  | .format => "Exec format error (os error 8)"
  | .nul => "nul byte found in provided data"

/-- A program that was found: what a shell is told to run, with the arguments that come
    first. -/
structure Found where
  name : String
  leading : List String
deriving DecidableEq, Repr

/-- The directories in which programs are found by their names. -/
def directories : List String :=
  ["/bin/", "/usr/bin/"]

/-- A program that is found by its name. -/
def isInstalled (name : String) : Bool :=
  isShell name || ((utility? name).isSome && !builtins.contains name)

/-- The installed program at a path. -/
def installedAt? (path : String) : Option String :=
  directories.findSome? fun directory =>
    match stripPrefix? directory.toList path.toList with
    | some name =>
      if isInstalled (String.ofList name) then some (String.ofList name) else none
    | none => none

/-- What the first line of a script asks for. -/
def ofScript (path : String) (contents : Bytes) : Except StartFault Found :=
  match interpreter? contents with
  | none => .error .format
  | some name => if isInstalled name then .ok ⟨name, [path]⟩ else .error (.disk .notFound)

/-- The program of a name or of a path. -/
def find (program : String) (d : Disk) : Except StartFault Found :=
  if hasChar program '/' then
    match installedAt? program, d.resolve true program with
    | some name, _ => .ok ⟨name, []⟩
    | none, .ok (.entry _ (.file contents true)) => ofScript program contents
    | none, .ok (.entry ..) => .error (.disk .denied)
    | none, .ok (.free _) => .error (.disk .notFound)
    | none, .error fault => .error (.disk fault)
  else if isInstalled program then .ok ⟨program, []⟩
  else .error (.disk .notFound)

/-- The session of a program that ended, with how it ended. -/
def execute (found : Found) (args : List String) (s : Session) : Flow × Session :=
  -- As a program of its own, `echo` takes a backslash for what it is.
  if found.name = "echo" then echo false (found.leading ++ args) s
  else if isShell found.name then runShell plenty (found.leading ++ args) s
  else invoke plenty false 0 found.name (found.leading ++ args) s

/-- Finds a program and lets it run in a session with an input. -/
def start (program : String) (args : List String) (input : Bytes) (room : Option Nat)
    (d : Disk) : Except Remote.Fault (Flow × Session) :=
  let found := if (program :: args).any (hasChar · '\x00') then .error .nul else find program d
  match found with
  | .error fault => .error (.spawn program fault.message)
  | .ok found => .ok (execute found args (Session.start program args input room d))

/-- The exit status, unless a signal ended the program. -/
def endOf (label : String) (flow : Flow) (s : Session) : Except Remote.Fault Ended :=
  if flow = .killed then .error (.missingExitCode label)
  else .ok ⟨s.status, s.collected 1⟩

/-- Runs a program without input, and collects its output. -/
def run (program : String) (args : List String) (label : String) (d : Disk) :
    Except Remote.Fault Output × Disk :=
  match start program args [] none d with
  | .error fault => (.error fault, d)
  | .ok (flow, s) => ((endOf label flow s).map fun e => ⟨e, s.collected 0⟩, s.disk)

/-- Runs a program whose output flows to a receiver. When that is full the program is
    ended. -/
def stream (program : String) (args : List String) (label : String) (sink : Sink) (d : Disk) :
    (Bytes × Except Remote.Fault Ended) × Disk :=
  match start program args [] sink.room d with
  | .error fault => (([], .error fault), d)
  | .ok (flow, s) =>
    let outcome := if flow = .full then .error (.io label Sink.fullMessage) else endOf label flow s
    ((s.collected 0, outcome), s.disk)

/-- The bytes that can be written to a program that does not read them. -/
def pipeSize : Nat := 65536

/-- Runs a program whose input comes from a source. -/
def feed (program : String) (args : List String) (label : String) (source : Source) (d : Disk) :
    Except Remote.Fault Ended × Disk :=
  match start program args source.bytes none d with
  | .error fault => (.error fault, d)
  | .ok (flow, s) =>
    if pipeSize < (s.inputs[0]?.getD []).length then
      (.error (.io label Disk.Fault.brokenPipe.message), s.disk)
    else
      match source.ending with
      | .broken message => (.error (.io label message), s.disk)
      | .clean => (endOf label flow s, s.disk)

end DeploymentBackup.Shell.Program
