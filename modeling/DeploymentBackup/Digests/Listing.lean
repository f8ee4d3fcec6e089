import DeploymentBackup.Digests.Basic
import DeploymentBackup.Digests.Fault
import DeploymentBackup.Text.Blank

namespace DeploymentBackup.Digests

open Text

/-!
# The record of checksum output

A checksum tool prints one line for each file: the digest, a space, a second space or a star
that marks binary mode, and the path. The path is everything behind the separator, blanks
and stars included.

* `Line` — what one line of output says.
* `readLine` — one line.
* `ofListing` — the record of a whole output.
-/

/-- What one line of checksum output says. -/
inductive Line
  /-- Nothing: a blank line, or an entry without a digest or without a path of its own. -/
  | nothing
  /-- The digest of a file. -/
  | entry (path digest : String)
  /-- Neither: the line has no separator. -/
  | malformed

/-- The path behind the first space: one more space or one star belongs to the separator. -/
def pathOf : List Char → List Char
  | ' ' :: path => path
  | '*' :: path => path
  | path => path

/-- Reads a line without its line end. A path of `-` stands for standard input. -/
def readLine (line : List Char) : Line :=
  if line.all isBlank then .nothing
  else
    match cutAt ' ' line with
    | none => .malformed
    | some (digest, rest) =>
      let path := pathOf rest
      if digest = [] ∨ path = [] ∨ path = ['-'] then .nothing
      else .entry (String.ofList path) (lowerAscii (String.ofList digest))

/-- Reads the lines in order into a record, up to the first malformed one. -/
def readLines (d : Digests) : List (List Char) → Except Fault Digests
  | [] => .ok d
  | line :: rest =>
    match readLine line with
    | .nothing => readLines d rest
    | .entry path digest => readLines (d.insert path digest) rest
    | .malformed => .error (.malformed (trim (String.ofList line)))

/-- The record of checksum output. -/
def ofListing (output : String) : Except Fault Digests :=
  readLines empty ((pieces '\n' output.toList).map dropReturn)

end DeploymentBackup.Digests
