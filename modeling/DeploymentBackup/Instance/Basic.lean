import DeploymentBackup.Digests.Basic
import DeploymentBackup.Instance.Act
import DeploymentBackup.Phase.Basic
import DeploymentBackup.Stream

namespace DeploymentBackup

open Text

/-!
# Instances and blobs

A deployment consists of instances. An instance says of each phase whether it is capable of
it, acts in it, and holds blobs: the data that is backed up and restored. How it does this is
its own matter; all that is known is the world `W` that it acts on.

* `Blob` — data that can be fetched, replaced and checked.
* `Instance` — one member of a deployment.
* `Instance.withoutRestoreLocks` — an instance that knows no locks around a restore.
-/

/-- A blob of data of an instance. -/
structure Blob (W : Type) where
  id : Identifier
  /-- The size as people read it. -/
  size : Act W String
  /-- The digests of its files, taken where it is. -/
  digests : Act W Digests
  /-- Its archive, as far as a receiver takes it, and how that ended. -/
  fetch : Sink → W → (Bytes × Except Halt Unit) × W
  /-- Replaces it by the archive that a source delivers. -/
  replace : Source → Act W Unit

/-- One member of a deployment. -/
structure Instance (W : Type) where
  id : Identifier
  /-- The instance is capable of a phase. -/
  capable : Phase → Act W Bool
  /-- What the instance does in a phase. -/
  act : Phase → Act W Unit
  blobs : Act W (List (Blob W))

variable {W V : Type}

/-- A blob whose world is a part of another one. -/
def Blob.within (part : V → W) (put : W → V → V) (b : Blob W) : Blob V where
  id := b.id
  size := b.size.within part put
  digests := b.digests.within part put
  fetch := fun sink v => ((b.fetch sink (part v)).1, put (b.fetch sink (part v)).2 v)
  replace := fun source => (b.replace source).within part put

/-- An instance whose world is a part of another one. -/
def Instance.within (part : V → W) (put : W → V → V) (i : Instance W) : Instance V where
  id := i.id
  capable := fun phase => (i.capable phase).within part put
  act := fun phase => (i.act phase).within part put
  blobs := fun v =>
    ((i.blobs (part v)).1.map (·.map (Blob.within part put)), put (i.blobs (part v)).2 v)

/-- The instance without locks around a restore of its own: it is not capable of them, and
    it can always be cleaned up. -/
def Instance.withoutRestoreLocks (i : Instance W) : Instance W :=
  { i with
    capable := fun phase =>
      match phase with
      | .preRestoreLock | .postRestoreUnlock => pure false
      | .cleanup => pure true
      | phase => i.capable phase
    act := fun phase =>
      match phase with
      | .preRestoreLock | .postRestoreUnlock => pure ()
      | phase => i.act phase }

end DeploymentBackup
