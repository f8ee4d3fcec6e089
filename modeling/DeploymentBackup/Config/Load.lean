import DeploymentBackup.Config.Basic
import DeploymentBackup.Config.Variable
import DeploymentBackup.Disk.Files
import DeploymentBackup.Toml.Read
import DeploymentBackup.Yaml.Read

namespace DeploymentBackup.Config

open Text

/-!
# Loading the configuration

Settings come from environment variables, from one configuration file, and from the
standard configuration, in this order. The file is the first of several candidates that
can be read. Switches are not taken from these sources: they are off.

* `Environment` — the environment variables.
* `candidates` — the files that may hold the configuration.
* `load` — the configuration.
-/

/-- The environment variables of a program run. -/
abbrev Environment := List (String × String)

namespace Environment

/-- The value of a variable; the last one of that name counts. -/
def get? (e : Environment) (name : String) : Option String :=
  e.reverse.lookup name

/-- The text with which the names of settings start. -/
def lead : String := "FLEETBACK_"

/-- The settings that the variables give, the weakest first. Two underscores between parts of
    a name stand for a table, which is never the value of a setting. -/
def settings (e : Environment) : List (String × Setting) :=
  e.filterMap fun (name, value) =>
    match stripPrefix? lead.toList (upperAscii name).toList with
    | none => none
    | some key =>
      let key := (lowerAscii (String.ofList key)).toList
      match (List.range key.length).find? fun n => (key.drop n).take 2 = ['_', '_'] with
      | some n => some (String.ofList (key.take n), .other)
      | none => some (String.ofList key, .ofVariable value)

end Environment

/-! ### Files -/

/-- The settings of a document that consists of scalars and other things. -/
def ofYaml (text : String) : Except String (List (String × Setting)) :=
  let read : Except Yaml.Fault (List (String × Setting)) := do
    let d ← Yaml.parse text
    let entries ← d.rootEntries
    entries.mapM fun (key, value) => do
      let name ← d.text key
      return (name, match (d.scalar value).bind Yaml.Scalar.meaning with
        | .ok (.text s) => .text s
        | _ => .other)
  read.mapError (·.message)

/-- The settings of a TOML document. -/
def ofToml (text : String) : Except String (List (String × Setting)) :=
  match Toml.parse? text with
  | none => .error "not a TOML document"
  | some table => .ok (table.map fun (key, value) => (key, match value with
      | .text s => .text s
      | _ => .other))

/-- The ending of the name of a file. -/
def ending (path : String) : String :=
  let name := ((PathText.of path).steps.getLast?).getD ""
  match (pieces '.' name.toList).getLast? with
  | some ending => lowerAscii (String.ofList ending)
  | none => ""

/-- The settings of a file. Its name tells its language; JSON is read as the YAML that it
    is. -/
def ofFile (d : Disk) (path : String) : Except String (List (String × Setting)) := do
  let contents ← (d.contentsAt path).mapError (·.message)
  let text ← (Disk.textOf contents).mapError (·.message)
  if ["yaml", "yml", "json", "json5"].contains (ending path) then ofYaml text else ofToml text

/-- The path of a file that is named in another one. -/
def beside (path named : String) : String :=
  let text := PathText.of path
  joinPath ((if text.absolute then "/" else "") ++ "/".intercalate text.steps.dropLast) named

/-- The settings of a file and of the files that it extends, the strongest first. None of
    them may extend itself, so the files that were read already are `seen`; `fuel` bounds
    their number. -/
def ofFiles (d : Disk) : (fuel : Nat) → (seen : List String) → String →
    Except String (List (String × Setting))
  | 0, _, path => .error ("too many files extended by " ++ path)
  | fuel + 1, seen, path => do
    if seen.contains path then throw ("the file extends itself: " ++ path)
    let settings ← ofFile d path
    match settings.lookup "extends" with
    | none => return settings
    | some .other => throw "the name of an extended file must be a text"
    | some (.text base) =>
      return settings ++ (← ofFiles d fuel (path :: seen) (beside path base))

/-- The files in a directory of configurations. -/
def inDirectory (directory : String) : List String :=
  [joinPath directory "fleetback/fleetback.toml", joinPath directory ".fleetback.toml"]

/-- The files that may hold the configuration, the first choice first. -/
def candidates (e : Environment) : List String :=
  let named := (e.get? "FLEETBACK_CONFIG_PATH").toList
  let own := (e.get? "XDG_CONFIG_HOME").toList
  let shared := match e.get? "XDG_CONFIG_DIRS" with
    | some directories => (pieces ':' directories.toList).map String.ofList
    | none => ["/etc/xdg"]
  let home := (e.get? "HOME").toList
  named ++ ((own ++ shared).filter (· ≠ "")).flatMap inDirectory ++
    home.flatMap (fun directory => inDirectory (joinPath directory ".config") ++
      [joinPath directory ".fleetback.toml"]) ++ ["fleetback.toml"]

/-- The most files that extend one another. -/
def mostExtended : Nat := 64

/-- The settings of the first candidate that can be read, if there is one. A candidate that
    is no file is passed over; if none can be read, the first one that is a file says why. -/
def fromCandidates (d : Disk) : List String → Except String (Option (List (String × Setting)))
  | [] => .ok none
  | path :: rest =>
    match d.contentsAt path with
    | .error _ => fromCandidates d rest
    | .ok _ =>
      match ofFiles d mostExtended [] path, fromCandidates d rest with
      | .ok settings, _ => .ok (some settings)
      | .error _, .ok (some settings) => .ok (some settings)
      | .error message, _ => .error message

/-! ### The configuration -/

/-- The text of a setting, or the standard one where it is not given. -/
def textOf (settings : List (String × Setting)) (key standard : String) :
    Except Fault String :=
  match settings.lookup key with
  | none => .ok standard
  | some (.text s) => .ok s
  | some .other => .error (.unreadable ("a text is needed for " ++ key))

/-- The text of a setting that may be missing. -/
def optionalTextOf (settings : List (String × Setting)) (key : String) :
    Except Fault (Option String) :=
  if (settings.lookup key).isSome then (textOf settings key "").map some else .ok none

/-- The configuration of settings, the strongest first. -/
def ofSettings (settings : List (String × Setting)) : Except Fault Config := do
  let inventory ← textOf settings "inventory_dir" standard.inventory
  let artifacts ← textOf settings "artifact_root" standard.artifacts
  let program ← textOf settings "ssh_bin" standard.ssh.program
  let user ← textOf settings "ssh_user" standard.ssh.user
  let knownHosts ← textOf settings "ssh_known_hosts_file" standard.ssh.knownHosts
  let identity ← optionalTextOf settings "ssh_identity_file"
  let jobsRoot ← textOf settings "jobs_root" standard.layout.jobsRoot
  let backupRoot ← textOf settings "backup_root" standard.layout.backupRoot
  return ⟨inventory, artifacts, ⟨program, user, false, false, knownHosts, identity⟩,
    ⟨jobsRoot, backupRoot⟩, false⟩

/-- The configuration of a program run. -/
def load (e : Environment) (d : Disk) : Except Fault Config := do
  let file ← (fromCandidates d (candidates e)).mapError .unreadable
  ofSettings (e.settings.reverse ++ file.getD [])

end DeploymentBackup.Config
