namespace DeploymentBackup

/-!
# Phases

A backup and a restore each go through phases. In every phase, each instance that is capable
of it acts once.

* `Phase` — the phases, with their names.
* `Phase.isAdvisory` — the phase whose failures do not make a run fail.
-/

/-- The phases of a backup and of a restore. -/
inductive Phase
  | preBackupLock
  | backup
  | postBackupUnlock
  | preRestoreLock
  | restore
  | postRestoreUnlock
  | cleanup
deriving DecidableEq, Repr

namespace Phase

/-- All phases. -/
def all : List Phase :=
  [preBackupLock, backup, postBackupUnlock, preRestoreLock, restore, postRestoreUnlock, cleanup]

/-- The name of a phase. -/
def name : Phase → String
  | preBackupLock => "pre-backup-lock"
  | backup => "backup"
  | postBackupUnlock => "post-backup-unlock"
  | preRestoreLock => "pre-restore-lock"
  | restore => "restore"
  | postRestoreUnlock => "post-restore-unlock"
  | cleanup => "cleanup"

/-- The phase of a name. -/
def ofName? (s : String) : Option Phase :=
  all.find? (·.name = s)

/-- A failure to clean up is reported, but it does not make a run fail. -/
def isAdvisory : Phase → Bool
  | cleanup => true
  | _ => false

end Phase

end DeploymentBackup
