import DeploymentBackup.Digests.Basic
import DeploymentBackup.Identifier

namespace DeploymentBackup

/-!
# The record of a backup

An artifact keeps a record beside its data files: when the backup ran, and the digests of
every blob that was stored. The blobs of instances and the shared blobs stand in sections of
their own, each in the order in which they were stored.

* `Metadata` — the record.
* `Metadata.digestsFor?` — the digests of one blob.
* `Metadata.insert?` — one more blob, unless it is recorded already.
-/

/-- The digests of the blob of an instance. -/
structure InstanceRecord where
  name : String
  index : String
  digests : Digests
deriving DecidableEq

/-- The digests of a shared blob. -/
structure BlobRecord where
  name : String
  digests : Digests
deriving DecidableEq

/-- The record of a backup. -/
structure Metadata where
  startTime : Option String
  finishTime : Option String
  instances : List InstanceRecord
  blobs : List BlobRecord
deriving DecidableEq

/-- The blob that a record is about. -/
def InstanceRecord.identifier (r : InstanceRecord) : Identifier :=
  .indexed r.name r.index

/-- The blob that a record is about. -/
def BlobRecord.identifier (r : BlobRecord) : Identifier :=
  .named r.name

namespace Metadata

/-- Nothing is known. -/
def empty : Metadata :=
  ⟨none, none, [], []⟩

/-- The digests of a blob, from the section of its kind. -/
def digestsFor? (m : Metadata) (id : Identifier) : Option Digests :=
  match id.index with
  | some index =>
    (m.instances.find? fun r => r.name = id.name && r.index = index).map (·.digests)
  | none => (m.blobs.find? (·.name = id.name)).map (·.digests)

/-- The record with the digests of one more blob at the end of its section; none when the
    blob is recorded already. -/
def insert? (m : Metadata) (id : Identifier) (digests : Digests) : Option Metadata :=
  if (m.digestsFor? id).isSome then none
  else
    match id.index with
    | some index => some { m with instances := m.instances ++ [⟨id.name, index, digests⟩] }
    | none => some { m with blobs := m.blobs ++ [⟨id.name, digests⟩] }

/-- The instances with a blob of their own. -/
def instanceIdentifiers (m : Metadata) : List Identifier :=
  m.instances.map (·.identifier)

/-- Every blob with its digests, those of instances first. -/
def recorded (m : Metadata) : List (Identifier × Digests) :=
  m.instances.map (fun r => (r.identifier, r.digests)) ++
    m.blobs.map fun r => (r.identifier, r.digests)

end Metadata

end DeploymentBackup
