namespace DeploymentBackup

/-!
# Failures of a checksum record

* `Digests.Fault` — an archive that cannot be read, or a line of checksum output that
  cannot be understood.
-/

/-- Why no checksum record could be made. -/
inductive Digests.Fault
  /-- The archive is not readable. -/
  | archive (message : String)
  /-- A line of checksum output lacks a digest and a path; the line is trimmed. -/
  | malformed (line : String)
deriving DecidableEq, Repr

/-- The text of a failure. -/
def Digests.Fault.message : Digests.Fault → String
  | .archive message => "failed to read archive: " ++ message
  | .malformed line => "malformed checksum line: " ++ line

end DeploymentBackup
