import DeploymentBackup.Shell.Program

namespace DeploymentBackup.Remote

open Text Shell

/-!
# Hosts reached with SSH

Commands run on a host by way of the SSH client of the local machine.

* `SshSettings` — the options of the client that all hosts share.
* `expandTilde` — a path below the home directory.
* `SshHost.arguments`, `SshHost.runner` — the client for one host.
-/

/-- The options of the client. -/
structure SshSettings where
  program : String
  user : String
  /-- The client must not ask for anything. -/
  batch : Bool
  /-- Hosts with unknown keys are refused. -/
  strict : Bool
  /-- The file of known hosts; when blank, the client chooses. -/
  knownHosts : String
  identity : Option String
deriving DecidableEq, Repr

/-- The options that are used unless they are told otherwise. -/
def SshSettings.standard : SshSettings :=
  ⟨"ssh", "vcap", true, false, "/dev/null", none⟩

/-- A path that starts with `~/` is below the home directory, if that is known. -/
def expandTilde (home : Option String) (path : String) : String :=
  match stripPrefix? "~/".toList path.toList, home with
  | some rest, some home => home ++ "/" ++ String.ofList rest
  | _, _ => path

/-- A host, and how it is reached. -/
structure SshHost where
  settings : SshSettings
  host : String
  port : Nat
  /-- The home directory of the local user. -/
  home : Option String
deriving DecidableEq, Repr

namespace SshHost

/-- An option of the client. -/
def option (name value : String) : List String :=
  ["-o", name ++ "=" ++ value]

/-- The arguments of the client that do not depend on the command. -/
def options (h : SshHost) : List String :=
  ["-p", toString h.port] ++
    (h.settings.identity.elim [] fun path => ["-i", expandTilde h.home path]) ++
    (if h.settings.batch then option "BatchMode" "yes" else []) ++
    (if h.settings.strict then [] else option "StrictHostKeyChecking" "no") ++
    (if blank h.settings.knownHosts then []
      else option "UserKnownHostsFile" h.settings.knownHosts)

/-- The arguments of the client for a command. -/
def arguments (h : SshHost) (command : String) : List String :=
  h.options ++ [h.settings.user ++ "@" ++ h.host, command]

/-- Runs commands on the host. -/
def runner (h : SshHost) : Runner Disk where
  run := fun command => Program.run h.settings.program (h.arguments command) command
  stream := fun command => Program.stream h.settings.program (h.arguments command) command
  feed := fun command => Program.feed h.settings.program (h.arguments command) command

end SshHost

end DeploymentBackup.Remote
