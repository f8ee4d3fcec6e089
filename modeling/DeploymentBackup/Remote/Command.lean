import DeploymentBackup.Remote.Job
import DeploymentBackup.Shell.Quote

namespace DeploymentBackup.Remote

open Shell

/-!
# Commands for a host

A command for a host is a list of words and operators with blanks between them. Every text
that comes from outside is a word of its own and quoted, so it cannot become anything else.

* `Command`, `Command.render` — a command and its text.
* `Command.findScripts`, `Command.script` — looking for scripts and running them.
* `Command.removeAll` — cleaning up.
* `Command.size`, `Command.listDigests`, `Command.pack`, `Command.unpack` — the data of a
  blob.
-/

/-- A word or an operator of a command. -/
inductive Piece
  /-- A fixed word or operator, written as it is. -/
  | bare (text : String)
  /-- One word with this text. -/
  | word (text : String)
  /-- A variable for the program that follows. -/
  | assignment (name value : String)
deriving DecidableEq, Repr

/-- The text of a piece. -/
def Piece.render : Piece → String
  | .bare text => text
  | .word text => quote text
  | .assignment name value => name ++ "=" ++ quote value

/-- A command. -/
abbrev Command := List Piece

namespace Command

/-- The text of a command. -/
def render (c : Command) : String :=
  " ".intercalate (c.map Piece.render)

/-- Fixed words and operators. -/
def fixed (texts : List String) : Command :=
  texts.map .bare

/-- Lists the scripts of all jobs. -/
def findScripts (l : Layout) : Command :=
  [.bare "find", .word l.jobsRoot, .bare "-path", .word "*/bin/bbr/*"] ++ fixed ["-type", "f"]

/-- Runs a program. -/
def run (path : String) : Command :=
  [.bare "sudo", .word path]

/-- Makes a directory. -/
def makeDirectory (directory : String) : Command :=
  fixed ["sudo", "mkdir", "-p"] ++ [.word directory]

/-- Runs a script of a job. A script that moves data finds the directory for it in a
    variable; the directory is made before. -/
def script (l : Layout) (j : Job) (s : Script) (path : String) : Command :=
  if s.movesData then
    let directory := j.directory l
    makeDirectory directory ++
      [.bare "&&", .bare "sudo", .assignment "ARTIFACT_DIRECTORY" (directory ++ "/"), .word path]
  else run path

/-- Removes everything that was collected. -/
def removeAll (l : Layout) : Command :=
  fixed ["sudo", "rm", "-rf"] ++ [.word l.backupRoot]

/-- Tells the size of a directory. -/
def size (directory : String) : Command :=
  fixed ["sudo", "du", "-sh"] ++ [.word directory] ++ fixed ["|", "cut", "-f1"]

/-- Lists the files of a directory with their digests. -/
def listDigests (directory : String) : Command :=
  [.bare "cd", .word directory] ++
    fixed ["&&", "sudo", "find", ".", "-type", "f", "-exec", "sha256sum", "\x7b\x7d", "+"]

/-- Writes the archive of a directory. -/
def pack (directory : String) : Command :=
  fixed ["sudo", "tar", "-C"] ++ [.word directory] ++ fixed ["-c", "."]

/-- Reads an archive into a directory. -/
def unpack (directory : String) : Command :=
  makeDirectory directory ++ fixed ["&&", "sudo", "tar", "-C"] ++ [.word directory, .bare "-x"]

end Command

end DeploymentBackup.Remote
