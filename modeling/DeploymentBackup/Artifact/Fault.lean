import DeploymentBackup.Digests.Fault
import DeploymentBackup.Identifier

namespace DeploymentBackup

/-!
# Failures of an artifact

* `Artifact.Fault` — why an operation on an artifact failed.
-/

namespace Artifact

/-- Why an operation on an artifact failed. -/
inductive Fault
  | alreadyExists (path : String)
  | io (path message : String)
  | blobMissing (id : Identifier)
  | invalidIdentifier (id : Identifier)
  | metadataMissing
  | metadataExists
  | metadataParse (message : String)
  | duplicateEntry (id : Identifier)
  | manifestExists
  | checksum (id : Identifier) (cause : Digests.Fault)
deriving DecidableEq

/-- The text of a failure. -/
def Fault.message : Fault → String
  | .alreadyExists path => "artifact already exists at " ++ path
  | .io path message => "artifact I/O failed for " ++ path ++ ": " ++ message
  | .blobMissing id => "artifact has no data file for " ++ id.display
  | .invalidIdentifier id =>
    "identifier " ++ id.display ++ " is not a valid artifact file name"
  | .metadataMissing => "artifact metadata does not exist"
  | .metadataExists => "artifact metadata already exists"
  | .metadataParse message => "artifact metadata is unreadable: " ++ message
  | .duplicateEntry id => "checksum for " ++ id.display ++ " is already recorded"
  | .manifestExists => "manifest already saved"
  | .checksum id cause => "blob " ++ id.display ++ " is unreadable: " ++ cause.message

end Artifact

end DeploymentBackup
