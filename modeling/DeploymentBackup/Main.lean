import DeploymentBackup.Archive.Reader
import DeploymentBackup.Cli.Perform
import DeploymentBackup.Disk.Change

/-!
# The program

The program works on a copy of its directory: it reads the files of the directory as an
archive from its input, carries out its command line on them, and tells what came of it.
The time is that of `SOURCE_DATE_EPOCH`, in seconds from the start of 1970.
-/

namespace DeploymentBackup

open Text

/-- The disk that holds the files of an archive. Files with the mark of a script can be
    run. -/
def Disk.ofFiles (files : List Archive.File) : Disk :=
  Disk.fresh.applyAll (files.map fun file =>
    .write (decodeLossy file.path) file.contents ((encode "#!").isPrefixOf file.contents))

/-- The environment variables that the program looks at. -/
def lookedAt : List String :=
  ["HOME", "XDG_CONFIG_HOME", "XDG_CONFIG_DIRS", "FLEETBACK_CONFIG_PATH", "FLEETBACK_INVENTORY_DIR",
   "FLEETBACK_ARTIFACT_ROOT", "FLEETBACK_SSH_BIN", "FLEETBACK_SSH_USER",
   "FLEETBACK_SSH_KNOWN_HOSTS_FILE", "FLEETBACK_SSH_IDENTITY_FILE", "FLEETBACK_JOBS_ROOT",
   "FLEETBACK_BACKUP_ROOT"]

/-- Everything that comes from a stream. -/
partial def readAll (stream : IO.FS.Stream) (before : ByteArray) : IO ByteArray := do
  let chunk ← stream.read 65536
  if chunk.isEmpty then return before else readAll stream (before ++ chunk)

end DeploymentBackup

open DeploymentBackup in
/-- Runs the program. -/
def main (args : List String) : IO UInt32 := do
  let input ← readAll (← IO.getStdin) ByteArray.empty
  let environment ← lookedAt.filterMapM fun name => do
    return (← IO.getEnv name).map fun value => (name, value)
  let seconds := ((← IO.getEnv "SOURCE_DATE_EPOCH").bind (·.toInt?)).getD 0
  match Archive.read input.toList with
  | .error fault =>
    (← IO.getStderr).putStr (fault.message ++ "\n")
    return 1
  | .ok files =>
    let time : Instant := ⟨seconds, false⟩
    let (ended, _) := Cli.run ⟨environment, time, time⟩ args (Disk.ofFiles files)
    (← IO.getStdout).putStr ended.stdout
    (← IO.getStderr).putStr ended.stderr
    return UInt32.ofNat ended.status
