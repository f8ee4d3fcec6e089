import DeploymentBackup.Artifact.Basic
import DeploymentBackup.Workflow.Basic

namespace DeploymentBackup.Workflow

/-!
# Backup

The blobs of every instance are stored in a new artifact. A blob is recorded only when the
digests of what was stored are those that its instance reports. A shared blob is stored by
the first instance that comes to it.

* `transfer` — one blob.
* `backUp` — the data phase of one instance.
* `backup` — the whole workflow.
-/

variable {F : Type}

/-- What an artifact says about the disk. -/
def inspectDisk {α : Type} (f : Disk → Except Artifact.Fault α) : Act (World F) α :=
  Act.read fun w => (f w.disk).mapError .artifact

/-- What an artifact does to the disk. -/
def changeDisk {α : Type} (f : Disk → Except Artifact.Fault (α × Disk)) : Act (World F) α :=
  fun w =>
    match f w.disk with
    | .ok (a, disk) => (.ok a, { w with disk := disk })
    | .error fault => (.error (.fault (.artifact fault)), w)

/-- Lets a blob write its archive into a file. What it wrote before a failure stays. -/
def store (blob : Blob (World F)) (file : Disk.WriteHandle) : Act (World F) Unit :=
  fun w =>
    let ((bytes, outcome), w) := blob.fetch .unlimited w
    (outcome, { w with disk := w.disk.write file bytes })

/-- Stores a blob and records its digests, once the stored ones and the remote ones agree.
    That its size is not known is no failure. -/
def transfer (a : Artifact) (blob : Blob (World F)) : Act (World F) Unit := do
  let _ ← blob.size.attempt
  let file ← changeDisk (a.createFile blob.id)
  store blob file
  let stored ← inspectDisk (a.calculateDigests blob.id)
  let remote ← blob.digests
  if stored.agrees remote then
    changeDisk fun disk => (a.addDigests blob.id stored disk).map ((), ·)
  else Act.fail (.integrity blob.id (", ".intercalate (remote.differences stored)))

/-- Takes a shared blob for the instance that asks first. -/
def claim (id : Identifier) : Act (World F) Bool :=
  fun w =>
    if w.claimed.contains id then (.ok false, w)
    else (.ok true, { w with claimed := id :: w.claimed })

/-- Stores the blobs of one instance in order, up to the first failure. Shared blobs that
    another one has taken are passed over. -/
def transferAll (a : Artifact) : List (Blob (World F)) → Act (World F) Unit
  | [] => pure ()
  | blob :: rest => do
    let taken ← if blob.id.isNamed then claim blob.id else pure true
    if taken then transfer a blob
    transferAll a rest

/-- The data phase of one instance: its own action, then its blobs. -/
def backUp (a : Artifact) (i : Instance (World F)) : Act (World F) Unit := do
  i.act .backup
  transferAll a (← i.blobs)

/-- Makes the artifact of a new backup: its directory, the manifest, the first record. -/
def prepare (path manifest : String) (start : Instant) (disk : Disk) :
    Except Artifact.Fault Artifact × Disk :=
  match Artifact.createAt disk path with
  | (.error fault, disk) => (.error fault, disk)
  | (.ok a, disk) =>
    match a.saveManifest manifest disk with
    | .error fault => (.error fault, disk)
    | .ok disk =>
      match a.createMetadata start disk with
      | .error fault => (.error fault, disk)
      | .ok disk => (.ok a, disk)

/-- Backs up a deployment into a new artifact. That the finish could not be recorded is the
    outcome only when nothing worse happened. -/
def backup {ε : Type} (deployment : Deployment (World F) ε) (policy : Policy) (path : String)
    (start finish : Instant) (w : World F) : Except (Error ε) Report × World F :=
  match deployment.instances w, deployment.manifest w with
  | .error cause, _ => (.error (.deployment cause), w)
  | .ok _, .error cause => (.error (.deployment cause), w)
  | .ok instances, .ok manifest =>
    match prepare path manifest start w.disk with
    | (.error fault, disk) => (.error (.artifact fault), { w with disk := disk })
    | (.ok a, disk) =>
      let (p, w) :=
        drive policy backupPlan (backUp a) instances { w with disk := disk, claimed := [] }
      match a.addFinishTime finish w.disk with
      | .ok disk => (p.finish path, { w with disk := disk })
      | .error fault =>
        (if p.isBlocked then p.finish path else .error (.artifact fault), w)

end DeploymentBackup.Workflow
