import DeploymentBackup.Remote.Host

namespace DeploymentBackup.Rehearsal

open Text Remote

/-!
# A host that follows a script

A host for rehearsals: it answers commands with prepared responses, one after the other,
and records what it was asked.

* `Script` — the responses that are left, and what was asked so far.
* `Script.runner` — the host.
-/

/-- A command that a host was asked to run, with the input for it. -/
structure Invocation where
  command : String
  input : Bytes
deriving DecidableEq, Repr

/-- The answer to a command. -/
abbrev Response := Except Remote.Fault Output

/-- The responses that are left, the commands so far, and the jobs if they are known. -/
structure Script where
  responses : List Response
  invocations : List Invocation
  jobs : Option (List Job)

namespace Script

/-- A script of which nothing has happened yet. -/
def of (responses : List Response) : Script :=
  ⟨responses, [], none⟩

/-- Records a command and takes the next response. -/
def answer (s : Script) (command : String) (input : Bytes) : Response × Script :=
  let s := { s with invocations := s.invocations ++ [Invocation.mk command input] }
  match s.responses with
  | response :: rest => (response, { s with responses := rest })
  | [] => (.error (.spawn "scripted" ("no scripted response for `" ++ command ++ "`")), s)

/-- The host. A source is read to its end before anything is asked. -/
def runner : Runner Script where
  run := fun command s => s.answer command []
  stream := fun command sink s =>
    match s.answer command [] with
    | (.error fault, s) => (([], .error fault), s)
    | (.ok output, s) =>
      match sink.take output.stdout with
      | (taken, none) => ((taken, .ok output.toEnded), s)
      | (taken, some message) => ((taken, .error (.io command message)), s)
  feed := fun command source s =>
    match source.readAll with
    | .error message => (.error (.io command message), s)
    | .ok input =>
      let (response, s) := s.answer command input
      (response.map (·.toEnded), s)

/-- An instance on a host that follows a script. -/
def host (id : Identifier) (layout : Layout) : Host Script where
  id := id
  layout := layout
  runner := runner
  known := (·.jobs)
  remember := fun jobs s => { s with jobs := some jobs }

end Script

end DeploymentBackup.Rehearsal
