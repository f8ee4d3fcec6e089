import DeploymentBackup.Archive.Reader
import DeploymentBackup.Digest.Sha256
import DeploymentBackup.Digests.Basic
import DeploymentBackup.Digests.Fault

namespace DeploymentBackup.Digests

open Text

/-!
# The record of an archive

* `ofFiles` — each file under its path, decoded leniently, with the digest of its contents.
* `ofSource`, `ofArchive` — the record of the regular files of an archive.
-/

/-- The path and digest of one file. -/
def entryOf (file : Archive.File) : String × String :=
  (decodeLossy file.path, Digest.sha256Hex file.contents)

/-- The record of files in order; a later file replaces an earlier one of the same path. -/
def ofFiles (files : List Archive.File) : Digests :=
  ofList (files.map entryOf)

/-- The record of the archive that a source delivers. -/
def ofSource (source : Source) : Except Fault Digests :=
  match Archive.readSource source with
  | .ok files => .ok (ofFiles files)
  | .error fault => .error (.archive fault.message)

/-- The record of an archive. -/
def ofArchive (bytes : Bytes) : Except Fault Digests :=
  ofSource (.of bytes)

end DeploymentBackup.Digests
