import DeploymentBackup.Artifact.Fault
import DeploymentBackup.Remote.Runner

namespace DeploymentBackup

/-!
# Failures of an instance

* `Instance.Fault` — why an operation on an instance or on a blob failed.
-/

namespace Instance

/-- Why an operation on an instance or on a blob failed. -/
inductive Fault
  /-- The command could not be run to its end. -/
  | remote (cause : Remote.Fault)
  /-- The command ended with a status other than zero. -/
  | remoteCommand (command : String) (exitCode : Int) (stderr : String)
  /-- The local and the remote digests of a blob differ. -/
  | integrity (id : Identifier) (detail : String)
  /-- The artifact has no digests for a blob that is restored. -/
  | missingChecksum (id : Identifier)
  | artifact (cause : Artifact.Fault)
  | checksum (cause : Digests.Fault)
  /-- The metadata script of a job printed something unusable. -/
  | jobMetadata (job message : String)
  /-- The operation was cut off by an internal failure. -/
  | panicked (message : String)
deriving DecidableEq

/-- The text of a failure. -/
def Fault.message : Fault → String
  | .remote cause => cause.message
  | .remoteCommand command exitCode stderr =>
    "`" ++ command ++ "` exited with status " ++ toString exitCode ++ ": " ++ stderr
  | .integrity id detail => "checksum mismatch for " ++ id.display ++ ": " ++ detail
  | .missingChecksum id => "artifact has no recorded checksum for " ++ id.display
  | .artifact cause => cause.message
  | .checksum cause => cause.message
  | .jobMetadata job message => "invalid metadata for job " ++ job ++ ": " ++ message
  | .panicked message => "operation panicked: " ++ message

end Instance

end DeploymentBackup
