import DeploymentBackup.Artifact.Fault
import DeploymentBackup.Clock
import DeploymentBackup.Digests.Archive
import DeploymentBackup.Disk.Files
import DeploymentBackup.Metadata.Written

namespace DeploymentBackup

open Text

/-!
# Artifacts

The result of a backup is a directory: an archive for each blob, the manifest of the
deployment, and the record of the backup. The record is read, changed and written again for
every blob that is added.

* `Artifact` — an opened artifact.
* `Artifact.createAt`, `Artifact.openAt` — a new and an existing one.
* `Artifact.createFile`, `Artifact.openFile` — the archives of blobs.
* `Artifact.addDigests`, `Artifact.fetchDigests` — the record.
* `Artifact.agreesWith` — the instances in the record are those of a deployment.
* `Artifact.isValid` — the stored archives have the recorded digests.
-/

/-- An opened artifact, with the path under which it was opened. -/
structure Artifact where
  path : String
  directory : Disk.Handle
deriving DecidableEq, Repr

namespace Artifact

/-- The file of the record. -/
def metadataFile : String := "metadata"

/-- The file of the manifest. -/
def manifestFile : String := "manifest.yml"

/-- A failure of the disk for a file of the artifact. -/
def ioFault (a : Artifact) (name : String) (fault : Disk.Fault) : Fault :=
  .io (joinPath a.path name) fault.message

/-! ### Artifacts as a whole -/

/-- Opens the artifact at a path. -/
def openAt (d : Disk) (path : String) : Except Fault Artifact :=
  match d.directoryAt path with
  | .ok handle => .ok ⟨path, handle⟩
  | .error fault => .error (.io path fault.message)

/-- Makes a new artifact at a path where nothing is yet. -/
def createAt (d : Disk) (path : String) : Except Fault Artifact × Disk :=
  if d.exists? path then (.error (.alreadyExists path), d)
  else
    match d.makeDirectories path with
    | (.error fault, d) => (.error (.io path fault.message), d)
    | (.ok (), d) => (openAt d path, d)

/-! ### Archives of blobs -/

/-- The name of the file of a blob. A name that would lead out of the artifact, or that
    would not be seen in it, is refused. -/
def fileName (id : Identifier) : Except Fault String :=
  if id.name.isEmpty || hasChar id.name '/' || id.name.toList.head? = some '.' ||
      id.index.any (hasChar · '/') then
    .error (.invalidIdentifier id)
  else .ok id.fileName

/-- Opens the file of a blob for writing, empty. -/
def createFile (a : Artifact) (id : Identifier) (d : Disk) :
    Except Fault (Disk.WriteHandle × Disk) :=
  match fileName id with
  | .error fault => .error fault
  | .ok name => (d.createIn a.directory name).mapError (a.ioFault name)

/-- Opens the file of a blob for reading. -/
def openFile (a : Artifact) (id : Identifier) (d : Disk) : Except Fault Source :=
  match fileName id with
  | .error fault => .error fault
  | .ok name =>
    match d.openIn a.directory name with
    | .ok source => .ok source
    | .error .notFound => .error (.blobMissing id)
    | .error fault => .error (a.ioFault name fault)

/-- The digests of the stored archive of a blob. -/
def calculateDigests (a : Artifact) (id : Identifier) (d : Disk) : Except Fault Digests :=
  match a.openFile id d with
  | .error fault => .error fault
  | .ok source => (Digests.ofSource source).mapError (.checksum id)

/-! ### The manifest -/

/-- Stores the manifest, which is done once. -/
def saveManifest (a : Artifact) (manifest : String) (d : Disk) : Except Fault Disk :=
  if d.existsIn a.directory manifestFile then .error .manifestExists
  else (d.writeIn a.directory manifestFile (encode manifest)).mapError (a.ioFault manifestFile)

/-- The stored manifest. -/
def manifest (a : Artifact) (d : Disk) : Except Fault String :=
  (d.readTextIn a.directory manifestFile).mapError (a.ioFault manifestFile)

/-! ### The record -/

/-- The record. -/
def metadata (a : Artifact) (d : Disk) : Except Fault Metadata :=
  match d.readTextIn a.directory metadataFile with
  | .error .notFound => .error .metadataMissing
  | .error fault => .error (a.ioFault metadataFile fault)
  | .ok text => (Metadata.parse text).mapError fun fault => .metadataParse fault.message

/-- Writes the record. -/
def writeMetadata (a : Artifact) (m : Metadata) (d : Disk) : Except Fault Disk :=
  (d.writeIn a.directory metadataFile (encode m.print)).mapError (a.ioFault metadataFile)

/-- Writes the first record, with the start of the backup. -/
def createMetadata (a : Artifact) (start : Instant) (d : Disk) : Except Fault Disk :=
  if d.existsIn a.directory metadataFile then .error .metadataExists
  else a.writeMetadata { Metadata.empty with startTime := some start.stamp } d

/-- Records the finish of the backup. -/
def addFinishTime (a : Artifact) (finish : Instant) (d : Disk) : Except Fault Disk :=
  match a.metadata d with
  | .error fault => .error fault
  | .ok m => a.writeMetadata { m with finishTime := some finish.stamp } d

/-- Records the digests of a blob, which is done once for each. -/
def addDigests (a : Artifact) (id : Identifier) (digests : Digests) (d : Disk) :
    Except Fault Disk :=
  match a.metadata d with
  | .error fault => .error fault
  | .ok m =>
    match m.insert? id digests with
    | some m => a.writeMetadata m d
    | none => .error (.duplicateEntry id)

/-- The recorded digests of a blob. -/
def fetchDigests (a : Artifact) (id : Identifier) (d : Disk) : Except Fault (Option Digests) :=
  (a.metadata d).map (·.digestsFor? id)

/-- The recorded instances. -/
def instanceIdentifiers (a : Artifact) (d : Disk) : Except Fault (List Identifier) :=
  (a.metadata d).map (·.instanceIdentifiers)

/-! ### Checks -/

/-- The recorded instances are those of a list, however often each occurs. -/
def agreesWith (a : Artifact) (instances : List Identifier) (d : Disk) : Except Fault Bool :=
  (a.instanceIdentifiers d).map fun recorded =>
    Identifier.sort recorded = Identifier.sort instances

/-- The archives of a list of blobs have the digests that go with them. A missing archive
    has not, and one that cannot be read is a failure. -/
def allAgree (a : Artifact) (d : Disk) : List (Identifier × Digests) → Except Fault Bool
  | [] => .ok true
  | (id, digests) :: rest =>
    match a.calculateDigests id d with
    | .error (.blobMissing _) => .ok false
    | .error fault => .error fault
    | .ok actual => if actual.agrees digests then a.allAgree d rest else .ok false

/-- Every recorded blob is stored with the recorded digests. -/
def isValid (a : Artifact) (d : Disk) : Except Fault Bool :=
  match a.metadata d with
  | .error fault => .error fault
  | .ok m => a.allAgree d m.recorded

end Artifact

end DeploymentBackup
