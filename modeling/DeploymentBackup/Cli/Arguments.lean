import DeploymentBackup.Text.Lines

namespace DeploymentBackup.Cli

open Text

/-!
# Command lines

A command line names a command, and the deployment and the artifact that the command is
about.

* `Request` — what a command line asks for.
* `parse` — the request of a command line, or how the program ends instead.
-/

/-- What a command line asks for. -/
inductive Request
  | backup (deployment : String) (artifact : Option String)
  | restore (deployment artifact : String)
  | validate (artifact : String)
deriving DecidableEq, Repr

/-- A command line that asks for nothing that can be done. -/
inductive Refusal
  /-- It asks for help. -/
  | help
  /-- It cannot be understood. -/
  | usage
deriving DecidableEq, Repr

/-- The exit status of a program run that ends with the reading of its command line. -/
def Refusal.status : Refusal → Nat
  | .help => 0
  | .usage => 2

/-- The words of a command line behind its command: the ones without a name, and the
    artifact. -/
structure Words where
  operands : List String
  artifact : Option String
deriving DecidableEq, Repr

/-- A word that is an option; a single dash is none. -/
def isOption (word : String) : Bool :=
  match word.toList with
  | '-' :: _ :: _ => true
  | _ => false

/-- Notes the artifact, which can be given once. -/
def Words.setArtifact (w : Words) (path : String) : Except Refusal Words :=
  if w.artifact.isSome then .error .usage else .ok { w with artifact := some path }

/-- Notes a word without a name; a command has at most `most` of these. -/
def Words.addOperand (most : Nat) (w : Words) (word : String) : Except Refusal Words :=
  if w.operands.length < most then .ok { w with operands := w.operands ++ [word] }
  else .error .usage

/-- Reads words behind `--`, none of which is an option. -/
def readOperands (most : Nat) (w : Words) : List String → Except Refusal Words
  | [] => .ok w
  | word :: rest => (w.addOperand most word).bind fun w => readOperands most w rest

/-- The name of the option for the artifact. -/
def artifactOption : String := "--artifact-path"

/-- Reads the words behind a command in order. -/
def readWords (most : Nat) (w : Words) : List String → Except Refusal Words
  | [] => .ok w
  | word :: rest =>
    if word = "--" then readOperands most w rest
    else if word = artifactOption then
      match rest with
      | path :: rest =>
        if isOption path then .error .usage
        else (w.setArtifact path).bind fun w => readWords most w rest
      | [] => .error .usage
    else
      match stripPrefix? (artifactOption ++ "=").toList word.toList with
      | some path => (w.setArtifact (String.ofList path)).bind fun w => readWords most w rest
      | none =>
        if word = "--help" || "-h".toList.isPrefixOf word.toList then .error .help
        else if isOption word then .error .usage
        else (w.addOperand most word).bind fun w => readWords most w rest

/-- Nothing was read yet. -/
def Words.none : Words :=
  ⟨[], Option.none⟩

/-- The commands. -/
def commands : List String :=
  ["backup", "restore", "validate"]

/-- Reads what help is wanted about. -/
def readHelp : List String → Refusal
  | [] => .help
  | [word] => if (commands ++ ["help"]).contains word then .help else .usage
  | _ => .usage

/-- The request of a command line, or how the program ends instead. -/
def parse (args : List String) : Except Refusal Request :=
  match args with
  | "backup" :: rest => do
    match ← readWords 1 .none rest with
    | ⟨[deployment], artifact⟩ => return .backup deployment artifact
    | _ => throw .usage
  | "restore" :: rest => do
    match ← readWords 1 .none rest with
    | ⟨[deployment], some artifact⟩ => return .restore deployment artifact
    | _ => throw .usage
  | "validate" :: rest => do
    match ← readWords 0 .none rest with
    | ⟨_, some artifact⟩ => return .validate artifact
    | _ => throw .usage
  | "help" :: rest => .error (readHelp rest)
  | word :: _ =>
    .error (if word = "--help" || "-h".toList.isPrefixOf word.toList then .help else .usage)
  | [] => .error .usage

end DeploymentBackup.Cli
