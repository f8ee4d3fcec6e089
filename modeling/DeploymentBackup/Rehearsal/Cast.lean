import DeploymentBackup.Rehearsal.Script
import DeploymentBackup.Rehearsal.StandIn
import DeploymentBackup.Workflow.Basic

namespace DeploymentBackup.Rehearsal

open Text

/-!
# Rehearsals

A rehearsal runs a workflow on a cast of stand-ins and scripted hosts, and records who acted
in which phase.

* `Cast` — the members, and what they did.
* `Cast.instanceAt` — a member as an instance.
* `Cast.deployment` — the deployment that consists of some members.
* `Cast.actors`, `Cast.strictlyBefore` — questions about the record.
-/

/-- A member of a rehearsal. -/
inductive Member
  | standIn (s : StandIn)
  | scripted (id : Identifier) (layout : Remote.Layout) (script : Script)

/-- An action of a stand-in. -/
structure Event where
  id : Identifier
  phase : Phase
deriving DecidableEq

/-- The members of a rehearsal and what they did, in order. -/
structure Cast where
  members : List Member
  events : List Event
  /-- Why the members cannot be looked up. -/
  lookupFault : Option String
  manifest : String

/-- The world of a rehearsal. -/
abbrev Stage := World Cast

namespace Cast

/-- Changes a member. -/
def change (c : Cast) (n : Nat) (f : Member → Member) : Cast :=
  { c with members := c.members.modify n f }

/-- The stand-in at a position; where there is none, one without a name. -/
def standInAt (c : Cast) (n : Nat) : StandIn :=
  match c.members[n]? with
  | some (.standIn s) => s
  | _ => .of default

/-- Changes the stand-in at a position. -/
def changeStandIn (c : Cast) (n : Nat) (f : StandIn → StandIn) : Cast :=
  c.change n fun
    | .standIn s => .standIn (f s)
    | member => member

/-- The script of the host at a position; where there is none, an empty one. -/
def scriptAt (c : Cast) (n : Nat) : Script :=
  match c.members[n]? with
  | some (.scripted _ _ script) => script
  | _ => .of []

/-- Changes the script of the host at a position. -/
def changeScript (c : Cast) (n : Nat) (f : Script → Script) : Cast :=
  c.change n fun
    | .scripted id layout script => .scripted id layout (f script)
    | member => member

/-- The blob of a stand-in. -/
def blobAt? (c : Cast) (n blob : Nat) : Option HeldBlob :=
  (c.standInAt n).blobs[blob]?

/-- Changes the blob of a stand-in. -/
def changeBlob (c : Cast) (n blob : Nat) (f : HeldBlob → HeldBlob) : Cast :=
  c.changeStandIn n (·.changeBlob blob f)

/-! ### Members as instances -/

/-- What happens before a call of the stand-in at a position. -/
def spring (n : Nat) (call : Call) : Act Stage Unit := fun w =>
  match (w.fleet.standInAt n).traps.lookup call with
  | none => (.ok (), w)
  | some trap =>
    let w := { w with disk := w.disk.applyAll trap.changes }
    match trap.ending with
    | some halt => (.error halt, w)
    | none => (.ok (), w)

/-- The answer of a stand-in about a phase. -/
def capable (n : Nat) (phase : Phase) : Act Stage Bool := do
  if phase = .restore then spring n .isRestorable
  Act.read fun w => (w.fleet.standInAt n).answer phase

/-- The action of a stand-in: it is recorded, and then it may fail. -/
def act (n : Nat) (phase : Phase) : Act Stage Unit := do
  spring n (.act phase)
  fun w =>
    let s := w.fleet.standInAt n
    let w := { w with fleet := { w.fleet with events := w.fleet.events ++ [⟨s.id, phase⟩] } }
    match s.failures.lookup phase with
    | some cause => (.error (.fault cause), w)
    | none => (.ok (), w)

/-- The blob of a stand-in, as it is at the time of each call. -/
def heldBlob (n number : Nat) (b : HeldBlob) : Blob Stage where
  id := b.id
  size := Act.read fun w => .ok ((w.fleet.blobAt? n number).getD b).size
  digests := Act.read fun w => ((w.fleet.blobAt? n number).getD b).digests
  fetch := fun sink w =>
    let (bytes, outcome) := ((w.fleet.blobAt? n number).getD b).fetch sink
    ((bytes, outcome.mapError .fault), w)
  replace := fun source w =>
    let (outcome, after) := ((w.fleet.blobAt? n number).getD b).replace source
    (outcome.mapError .fault,
      { w with fleet := w.fleet.changeBlob n number fun _ => after })

/-- The blobs of a stand-in. -/
def blobs (n : Nat) : Act Stage (List (Blob Stage)) := do
  spring n .blobs
  Act.read fun w => .ok ((w.fleet.standInAt n).blobs.mapIdx (heldBlob n))

/-- A stand-in as an instance. -/
def standIn (n : Nat) (s : StandIn) : Instance Stage :=
  let i : Instance Stage := ⟨s.id, capable n, act n, blobs n⟩
  if s.locksRestore then i else i.withoutRestoreLocks

/-- A scripted host as an instance. -/
def scripted (n : Nat) (id : Identifier) (layout : Remote.Layout) : Instance Stage :=
  ((Script.host id layout).toInstance.within (·.scriptAt n)
    fun script c => c.changeScript n fun _ => script).inFleet

/-- The member at a position as an instance. -/
def instanceAt? (c : Cast) (n : Nat) : Option (Instance Stage) :=
  c.members[n]?.map fun
    | .standIn s => standIn n s
    | .scripted id layout _ => scripted n id layout

/-- The deployment that consists of the members at some positions. -/
def deployment (positions : List Nat) : Deployment Stage String where
  instances := fun w => serve w (positions.filterMap w.fleet.instanceAt?)
  manifest := fun w => serve w w.fleet.manifest
where
  /-- An answer, unless nothing can be looked up. -/
  serve {α : Type} (w : Stage) (answer : α) : Except String α :=
    match w.fleet.lookupFault with
    | some message => .error ("deployment lookup failed: " ++ message)
    | none => .ok answer

/-! ### The record -/

/-- Those who acted in a phase, in ascending order. -/
def actors (c : Cast) (phase : Phase) : List Identifier :=
  Identifier.sort ((c.events.filter (·.phase = phase)).map (·.id))

/-- Every action of one phase came before every action of another one. -/
def strictlyBefore (c : Cast) (earlier later : Phase) : Bool :=
  !(c.events.dropWhile (·.phase ≠ later)).any (·.phase = earlier)

end Cast

end DeploymentBackup.Rehearsal
