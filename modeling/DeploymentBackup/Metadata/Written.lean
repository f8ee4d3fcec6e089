import DeploymentBackup.Metadata.Basic
import DeploymentBackup.Yaml.Print
import DeploymentBackup.Yaml.Read

namespace DeploymentBackup

open Yaml

/-!
# The written record

* `Metadata.print` — the text of a record.
* `Metadata.parse` — the record of a text. Fields that are missing are empty, an index may
  be written as a number, and unknown fields are passed over.
-/

namespace Metadata

/-! ### Writing -/

/-- The digests of a blob, by path. -/
def digestsLayout (d : Digests) : Layout :=
  .mapping (d.entries.map fun (path, digest) => (path, .text digest))

/-- A field that is written only when it has a value. -/
def optionalField (name : String) (value : Option String) : List (String × Layout) :=
  value.toList.map fun text => (name, .text text)

/-- The record of an instance. -/
def instanceLayout (r : InstanceRecord) : Layout :=
  .mapping [("instance_name", .text r.name), ("instance_index", .text r.index),
    ("checksums", digestsLayout r.digests)]

/-- The record of a shared blob. -/
def blobLayout (r : BlobRecord) : Layout :=
  .mapping [("blob_name", .text r.name), ("checksums", digestsLayout r.digests)]

/-- The document of a record. -/
def layout (m : Metadata) : Layout :=
  .mapping
    [("backup_activity", .mapping
      (optionalField "start_time" m.startTime ++ optionalField "finish_time" m.finishTime)),
     ("instances", .list (m.instances.map instanceLayout)),
     ("blobs", .list (m.blobs.map blobLayout))]

/-- The text of a record. -/
def print (m : Metadata) : String :=
  Yaml.print m.layout

/-! ### Reading -/

/-- An index as a text: a text or an integer of at most 64 bits. -/
def readIndex (d : Document) (node : Node) : Except Fault String :=
  match (d.scalar node).bind Scalar.meaning with
  | .error fault => .error fault
  | .ok (.text text) => .ok text
  | .ok (.integer n) =>
    if Int64.minValue.toInt ≤ n ∧ n < UInt64.size then .ok (toString n)
    else .error (.wrongKind "an instance index as a string or integer")
  | .ok _ => .error (.wrongKind "an instance index as a string or integer")

/-- The digests of a blob. Of equal paths the last counts; then the paths are taken in
    ascending order, each without a leading `./`. -/
def readDigests (d : Document) (node : Node) : Except Fault Digests :=
  (d.texts node).map fun entries =>
    .ofList (entries.foldl (fun table (path, digest) => Digests.put path digest table) [])

/-- The record of an instance. -/
def readInstance (d : Document) (node : Node) : Except Fault InstanceRecord := do
  let fields ← Fields.ofEntries d ["instance_name", "instance_index", "checksums"]
    (← d.entries node)
  let name ← fields.get "instance_name" d.text
  let index ← fields.get "instance_index" (readIndex d)
  let digests ← fields.getD "checksums" Digests.empty (readDigests d)
  return ⟨name, index, digests⟩

/-- The record of a shared blob. -/
def readBlob (d : Document) (node : Node) : Except Fault BlobRecord := do
  let fields ← Fields.ofEntries d ["blob_name", "checksums"] (← d.entries node)
  let name ← fields.get "blob_name" d.text
  let digests ← fields.getD "checksums" Digests.empty (readDigests d)
  return ⟨name, digests⟩

/-- The start and the finish of a backup. -/
def readActivity (d : Document) (node : Node) : Except Fault (Option String × Option String) := do
  let fields ← Fields.ofEntries d ["start_time", "finish_time"] (← d.entries node)
  let startTime ← fields.getD "start_time" none d.optionalText
  let finishTime ← fields.getD "finish_time" none d.optionalText
  return (startTime, finishTime)

/-- The record of a document. -/
def ofDocument (d : Document) : Except Fault Metadata := do
  let fields ← Fields.ofEntries d ["backup_activity", "instances", "blobs"] (← d.rootEntries)
  let (startTime, finishTime) ← fields.getD "backup_activity" (none, none) (readActivity d)
  let instances ← fields.getD "instances" [] (d.list (readInstance d))
  let blobs ← fields.getD "blobs" [] (d.list (readBlob d))
  return ⟨startTime, finishTime, instances, blobs⟩

/-- The record of a text. -/
def parse (text : String) : Except Fault Metadata :=
  (Yaml.parse text).bind ofDocument

end Metadata

end DeploymentBackup
