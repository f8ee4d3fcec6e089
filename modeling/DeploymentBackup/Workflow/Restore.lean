import DeploymentBackup.Text.Literal
import DeploymentBackup.Workflow.Backup

namespace DeploymentBackup.Workflow

open Text

/-!
# Restore

Before anything is touched, every instance is asked for its blobs, the instances that hold
data of their own must be those in the record, and all that hold data must be restorable.
Then each instance is given its blobs, and applies them when the digests of what it received
are the recorded ones.

* `Holding`, `inspect` — what the instances hold.
* `difference` — the identifiers of one list that another one lacks.
* `upload`, `putBack` — the data phase of one instance.
* `restore` — the whole workflow.
-/

variable {F : Type}

/-! ### Before the phases -/

/-- What an instance holds. -/
structure Holding where
  id : Identifier
  holdsOwnData : Bool
  holdsData : Bool
  restorable : Bool
deriving DecidableEq

/-- Asks one instance. -/
def inspectOne (i : Instance (World F)) : Act (World F) Holding := do
  let blobs ← i.blobs
  let restorable ← if blobs.isEmpty then pure false else i.capable .restore
  return ⟨i.id, blobs.any (! ·.id.isNamed), !blobs.isEmpty, restorable⟩

/-- The failure of an inspection; a panic is told with the number of the inspection. -/
def inspectionCause (number : Nat) : Halt → Instance.Fault
  | .fault cause => cause
  | .panic (.text message) =>
    .panicked ("task " ++ toString number ++ " panicked with message " ++ literal message)
  | .panic .other => .panicked ("task " ++ toString number ++ " panicked")

/-- Asks all instances, the first with the given number. -/
def inspectAll (number : Nat) :
    List (Instance (World F)) → World F → (List Holding × PhaseErrors) × World F
  | [], w => (([], []), w)
  | i :: rest, w =>
    let (outcome, w) := inspectOne i w
    let ((holdings, errors), w) := inspectAll (number + 1) rest w
    match outcome with
    | .ok holding => ((holding :: holdings, errors), w)
    | .error halt => ((holdings, ⟨i.id, .restore, inspectionCause number halt⟩ :: errors), w)

/-- What all instances hold, or the failures to find out. -/
def inspect {ε : Type} (instances : List (Instance (World F))) (w : World F) :
    Except (Error ε) (List Holding) × World F :=
  let ((holdings, errors), w) := inspectAll 1 instances w
  (if errors.isEmpty then .ok holdings else .error (.discovery errors), w)

/-- The identifiers of `left` that are left over when each one of `right` is struck out
    once. -/
def leftOver (left right : List Identifier) : List Identifier :=
  match left with
  | [] => []
  | id :: rest =>
    if right.contains id then leftOver rest (right.erase id) else id :: leftOver rest right

/-- The identifiers that are left over, in ascending order. -/
def difference (left right : List Identifier) : List Identifier :=
  Identifier.sort (leftOver left right)

/-- The instances with data of their own are those in the record. -/
def checkCompatibility {ε : Type} (a : Artifact) (holdings : List Holding) (disk : Disk) :
    Except (Error ε) Unit :=
  let present := (holdings.filter (·.holdsOwnData)).map (·.id)
  match a.agreesWith present disk, a.instanceIdentifiers disk with
  | .ok true, _ => .ok ()
  | .ok false, .ok recorded =>
    .error (.compatibility (difference recorded present) (difference present recorded))
  | .error fault, _ => .error (.artifact fault)
  | _, .error fault => .error (.artifact fault)

/-- All instances with data can be restored. -/
def checkRestorable {ε : Type} (holdings : List Holding) : Except (Error ε) Unit :=
  let stuck := (holdings.filter fun h => h.holdsData && !h.restorable).map (·.id)
  if stuck.isEmpty then .ok () else .error (.notRestorable stuck)

/-! ### The phases -/

/-- Gives an instance the stored archive of a blob, and checks that it arrived. -/
def upload (a : Artifact) (blob : Blob (World F)) : Act (World F) Unit := do
  let some expected ← inspectDisk (a.fetchDigests blob.id)
    | Act.fail (.missingChecksum blob.id)
  let source ← inspectDisk (a.openFile blob.id)
  blob.replace source
  let remote ← blob.digests
  if remote.agrees expected then pure ()
  else Act.fail (.integrity blob.id (", ".intercalate (expected.differences remote)))

/-- Gives an instance its blobs in order, up to the first failure. -/
def uploadAll (a : Artifact) : List (Blob (World F)) → Act (World F) Unit
  | [] => pure ()
  | blob :: rest => do
    upload a blob
    uploadAll a rest

/-- The data phase of one instance: its blobs, then its own action. -/
def putBack (a : Artifact) (i : Instance (World F)) : Act (World F) Unit := do
  uploadAll a (← i.blobs)
  i.act .restore

/-- Restores a deployment from the artifact at a path. -/
def restore {ε : Type} (deployment : Deployment (World F) ε) (policy : Policy) (path : String)
    (w : World F) : Except (Error ε) Report × World F :=
  match deployment.instances w with
  | .error cause => (.error (.deployment cause), w)
  | .ok instances =>
    match Artifact.openAt w.disk path with
    | .error fault => (.error (.artifact fault), w)
    | .ok a =>
      match inspect instances w with
      | (.error e, w) => (.error e, w)
      | (.ok holdings, w) =>
        match checkCompatibility a holdings w.disk, checkRestorable holdings with
        | .error e, _ => (.error e, w)
        | .ok (), .error e => (.error e, w)
        | .ok (), .ok () =>
          let (p, w) := drive policy restorePlan (putBack a) instances w
          (p.finish path, w)

end DeploymentBackup.Workflow
