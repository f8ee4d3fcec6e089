import DeploymentBackup.Phase.Basic
import DeploymentBackup.Remote.Layout
import DeploymentBackup.Text.Ascending
import DeploymentBackup.Text.Lines
import DeploymentBackup.Yaml.Read

namespace DeploymentBackup.Remote

open Text Yaml

/-!
# Jobs

A job of a host takes part in backups by the scripts that it ships in its directory. One of
them, the metadata script, may print the name of a shared blob, in which the job keeps its
data then.

* `Script` — the scripts.
* `Job` — a job with its scripts.
* `jobsOf` — the jobs that a listing of files shows.
* `backupNameOf` — the shared blob that a metadata script names.
-/

/-! ### Scripts -/

/-- The scripts that a job may have. -/
inductive Script
  | backup
  | restore
  | preBackupLock
  | postBackupUnlock
  | preRestoreLock
  | postRestoreUnlock
  | metadata
deriving DecidableEq, Repr

namespace Script

/-- All scripts. -/
def all : List Script :=
  [backup, restore, preBackupLock, postBackupUnlock, preRestoreLock, postRestoreUnlock, metadata]

/-- The name of the file of a script. -/
def fileName : Script → String
  | backup => "backup"
  | restore => "restore"
  | preBackupLock => "pre-backup-lock"
  | postBackupUnlock => "post-backup-unlock"
  | preRestoreLock => "pre-restore-lock"
  | postRestoreUnlock => "post-restore-unlock"
  | metadata => "metadata"

/-- The script in a file of that name. -/
def ofFileName? (name : String) : Option Script :=
  all.find? (·.fileName = name)

/-- The script that a job runs in a phase. -/
def ofPhase? : Phase → Option Script
  | .preBackupLock => some preBackupLock
  | .backup => some backup
  | .postBackupUnlock => some postBackupUnlock
  | .preRestoreLock => some preRestoreLock
  | .restore => some restore
  | .postRestoreUnlock => some postRestoreUnlock
  | .cleanup => none

/-- The script reads or writes data of the job. -/
def movesData : Script → Bool
  | backup | restore => true
  | _ => false

end Script

/-! ### Jobs -/

/-- A job: its scripts with their paths, and the shared blob that it keeps its data in. -/
structure Job where
  name : String
  scripts : List (Script × String)
  backupName : Option String
deriving DecidableEq, Repr

namespace Job

/-- The path of a script. -/
def script? (j : Job) (s : Script) : Option String :=
  j.scripts.lookup s

/-- The job has a script. -/
def has (j : Job) (s : Script) : Bool :=
  (j.script? s).isSome

/-- The job has data that is backed up or restored. -/
def holdsData (j : Job) : Bool :=
  j.has .backup || j.has .restore

/-- The job with a shared blob; a blank name is none. -/
def withBackupName (j : Job) (name : Option String) : Job :=
  { j with backupName := name.filter (!blank ·) }

/-- The directory of the data of the job. -/
def directory (j : Job) (l : Layout) : String :=
  match j.backupName with
  | some name => l.namedDirectory name
  | none => l.instanceDirectory ++ "/" ++ j.name

end Job

/-- The names of the shared blobs of the jobs that hold data. -/
def sharedNames (jobs : List Job) : List String :=
  ascending ((jobs.filter (·.holdsData)).filterMap (·.backupName))

/-! ### Listings -/

/-- The job and the script that a path names: the directory of the jobs, the job, the two
    directories of its scripts, and the script. -/
def scriptAt? (jobsRoot path : String) : Option (String × Script) :=
  match stripPrefix? (withoutEndSlashes jobsRoot ++ "/").toList path.toList with
  | none => none
  | some rest =>
    match (pieces '/' rest).map String.ofList with
    | [job, "bin", "bbr", file] => (Script.ofFileName? file).map (job, ·)
    | _ => none

/-- The path of a script of a job. -/
def scriptPath (jobsRoot job : String) (s : Script) : String :=
  withoutEndSlashes jobsRoot ++ "/" ++ job ++ "/bin/bbr/" ++ s.fileName

/-- The scripts that a listing of paths shows, one path in a line. -/
def listed (jobsRoot listing : String) : List (String × Script) :=
  (lines listing).filterMap fun line => scriptAt? jobsRoot (trim line)

/-- The job of a name, with those of its scripts that are listed. -/
def jobOf (jobsRoot : String) (found : List (String × Script)) (name : String) : Job where
  name := name
  scripts := (Script.all.filter fun s => found.contains (name, s)).map fun s =>
    (s, scriptPath jobsRoot name s)
  backupName := none

/-- The jobs that a listing of paths shows, in ascending order. -/
def jobsOf (jobsRoot listing : String) : List Job :=
  let found := listed jobsRoot listing
  (ascending (found.map (·.1))).map (jobOf jobsRoot found)

/-! ### Metadata -/

/-- The shared blob that the output of a metadata script names, if any. -/
def backupNameOf (output : String) : Except Yaml.Fault (Option String) := do
  if blank output then return none
  let d ← Yaml.parse output
  let fields ← Fields.ofEntries d ["backup_name"] (← d.rootEntries)
  fields.getD "backup_name" none d.optionalText

end DeploymentBackup.Remote
