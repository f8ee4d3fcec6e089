import DeploymentBackup.Text.Blank

namespace DeploymentBackup.Remote

open Text

/-!
# Directories of a host

The jobs of a host stand in one directory, and the data that they back up is collected in
another one: a directory for the jobs without a shared blob, and one for each shared blob.

* `Layout` — the two directories.
* `Layout.instanceDirectory`, `Layout.namedDirectory` — the directories of blobs.
-/

/-- Where a host keeps its jobs, and where it collects data. -/
structure Layout where
  jobsRoot : String
  backupRoot : String
deriving DecidableEq, Repr

/-- A path without the slashes at its end. -/
def withoutEndSlashes (path : String) : String :=
  String.ofList (dropEndWhile (· = '/') path.toList)

namespace Layout

/-- The directories that a host uses unless it is told otherwise. -/
def standard : Layout :=
  ⟨"/var/vcap/jobs", "/var/vcap/store/bbr-backup"⟩

/-- The directory of the blob of the instance itself. -/
def instanceDirectory (l : Layout) : String :=
  withoutEndSlashes l.backupRoot ++ "/instance"

/-- The directory of a shared blob. -/
def namedDirectory (l : Layout) (name : String) : String :=
  withoutEndSlashes l.backupRoot ++ "/named/" ++ name

end Layout

end DeploymentBackup.Remote
