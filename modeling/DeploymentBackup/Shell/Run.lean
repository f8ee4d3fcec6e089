import DeploymentBackup.Shell.Command
import DeploymentBackup.Shell.Expansion
import DeploymentBackup.Shell.Utility

namespace DeploymentBackup.Shell

open Text

/-!
# Running commands

A command changes the session and says how the shell goes on behind it. Loops and programs
need not end, so running is bounded by `fuel`.

* `redirect` — the descriptors of a command.
* `run` — a command.
* `runProgram` — the text of a program.
-/

/-! ### Descriptors -/

/-- Where a redirection leads, or the complaint about it. -/
def open? (kind : RedirectKind) (target : String) (s : Session) :
    Except String (Channel × Session) :=
  if target = "/dev/null" then .ok (.nothing, s)
  else
    match kind with
    | .duplicate =>
      if target = "-" then .ok (.nothing, s)
      else
        match target.toNat?.bind fun n => s.channels.lookup n with
        | some channel => .ok (channel, s)
        | none => .error (target ++ ": Bad file descriptor")
    | .read =>
      match s.disk.contentsAt target with
      | .ok bytes => .ok (s.newInput bytes)
      | .error .isDirectory => .ok (s.newInput [])
      | .error .notFound => .error ("cannot open " ++ target ++ ": No such file")
      | .error fault => .error ("cannot open " ++ target ++ ": " ++ reason fault)
    | kind =>
      let before := if kind = .append then (s.disk.contentsAt target).toOption.getD [] else []
      match s.disk.writeFile target before false, s.disk.resolve true target with
      | .ok disk, .ok (.entry path _) | .ok disk, .ok (.free path) =>
        .ok (.file path, { s with disk := disk })
      | .error .notFound, _ =>
        .error ("cannot create " ++ target ++ ": Directory nonexistent")
      | .error fault, _ => .error ("cannot create " ++ target ++ ": " ++ reason fault)
      | _, .error fault => .error ("cannot create " ++ target ++ ": " ++ reason fault)

/-- Connects the descriptors of a command; the complaint says which one failed. -/
def redirect (sub : Substitute) : List Redirect → Session → Except String Unit × Session
  | [], s => (.ok (), s)
  | r :: rest, s =>
    let (target, s) := text sub s r.target
    match open? r.kind target s with
    | .error complaint => (.error complaint, s)
    | .ok (channel, s) => redirect sub rest (s.connect r.descriptor channel)

/-! ### Commands of the shell itself -/

/-- Ends the shell, a function or a loop, with a status or a number of loops. -/
def control (behind : Nat) (name : String) (args : List String) (s : Session) :
    Option (Flow × Session) :=
  let count := ((args.head?.bind (·.toNat?)).getD 1) - 1
  match name, args with
  | "exit", [] => some (.exit, s)
  | "return", [] => some (.back, s)
  | "exit", arg :: _ | "return", arg :: _ =>
    match arg.toNat? with
    | some n => some (if name = "exit" then .exit else .back, { s with status := n % 256 })
    | none =>
      let (_, s) := s.complain 2 (s.located behind (name ++ ": Illegal number: " ++ arg))
      some (.exit, s)
  | "break", _ => some (.leave count, { s with status := 0 })
  | "continue", _ => some (.again count, { s with status := 0 })
  | _, _ => none

/-- Reads `name=value`, or a name with its value. -/
def binding (s : Session) (arg : String) : String × String :=
  match cutAt '=' arg.toList with
  | some (name, value) => (String.ofList name, String.ofList value)
  | none => (arg, (s.assigned? arg).getD "")

/-- Gives variables the words of a line; the last one gets all that are left. -/
def assignWords : List String → List String → Session → Session
  | [], _, s => s
  | [name], words, s => s.assign name (" ".intercalate words)
  | name :: rest, words, s => assignWords rest words.tail (s.assign name (words.headD ""))

/-- Reads a line of the input into variables. -/
def readLine (args : List String) (s : Session) : Flow × Session :=
  let bytes := s.waiting 0
  let line := bytes.takeWhile (· ≠ 0x0A)
  let s := s.leaveWaiting 0 (bytes.drop (line.length + 1))
  let words := ((Text.pieces ' ' (decodeLossy line).toList).filter (· ≠ [])).map String.ofList
  let s := assignWords (args.filter (· ≠ "-r")) words s
  s.ended (if line.length < bytes.length then 0 else 1)

/-- Changes the session: its variables, arguments, options or directory. -/
def adjust (name : String) (args : List String) (s : Session) : Option (Flow × Session) :=
  match name with
  | "shift" =>
    some (({ s with arguments := s.arguments.drop ((args.head?.bind (·.toNat?)).getD 1) } :
      Session).ended 0)
  | "export" | "readonly" | "local" =>
    some ((args.foldl (fun s arg =>
      let (name, value) := binding s arg
      s.assign name value) s).ended 0)
  | "unset" => some (({ s with values := s.values.filter (!args.contains ·.1) } :
      Session).ended 0)
  | "set" =>
    match args with
    | "--" :: rest => some (({ s with arguments := rest } : Session).ended 0)
    | args =>
      let on := args.any fun a => "-".toList.isPrefixOf a.toList && hasChar a 'e'
      let off := args.any fun a => "+".toList.isPrefixOf a.toList && hasChar a 'e'
      some (({ s with strict := (s.strict || on) && !off } : Session).ended 0)
  | "read" => some (readLine args s)
  | "cd" =>
    match s.disk.directoryAt (args.headD "/") with
    | .ok handle =>
      some (({ s with disk := { s.disk with workdir := handle.path } } : Session).ended 0)
    | .error _ => some (s.complain 2 (s.located s.lines ("cd: can't cd to " ++ args.headD "")))
  | _ => none

/-! ### Commands -/

/-- How a loop goes on behind one turn: with another turn, or with this flow. -/
def behindTurn : Flow → Option Flow
  | .next | .again 0 => none
  | .again (n + 1) => some (.again n)
  | .leave 0 => some .next
  | .leave (n + 1) => some (.leave n)
  | flow => some flow

/-- Ends a strict shell behind a command that failed. -/
def settle (tested : Bool) (result : Flow × Session) : Flow × Session :=
  match result with
  | (.next, s) => if s.strict && !tested && s.status ≠ 0 then (.exit, s) else (.next, s)
  | result => result

/-- The status of a process that was ended by a signal, as a shell sees it. -/
def killedStatus : Nat := 137

/-- The end of another process, as the shell sees it that waited for it. -/
def awaited (result : Flow × Session) : Flow × Session :=
  match result with
  | (.killed, s) => s.ended killedStatus
  | result => result

/-- The interpreter that the first line of a script names. -/
def interpreter? (contents : Bytes) : Option String :=
  match stripPrefix? "#!".toList (decodeLossy (contents.takeWhile (· ≠ 0x0A))).toList with
  | some rest =>
    let words := (Text.pieces ' ' rest).filter (· ≠ [])
    let names := words.map fun w => ((Text.pieces '/' w).getLast?.getD [])
    (names.find? (· ≠ "env".toList)).map String.ofList
  | none => none

/-- The shells that can run a script. -/
def isShell (name : String) : Bool :=
  ["sh", "dash", "bash"].contains name

mutual

/-- Runs a command. A command whose status is tested does not end a strict shell. -/
def run : (fuel : Nat) → (tested : Bool) → Command → Session → Flow × Session
  | 0, _, _, s => (.full, s)
  | fuel + 1, tested, c, s =>
    match c with
    | .nothing => (.next, s)
    | .simple behind assignments words rs =>
      settle tested (runSimple fuel tested behind assignments words rs s)
    | .redirected body rs =>
      match redirect (substitute fuel) rs s with
      | (.error complaint, after) =>
        ({ after with channels := s.channels } : Session).complain 2
          (s.located 0 complaint)
      | (.ok (), after) =>
        let (flow, after) := run fuel tested body after
        (flow, { after with channels := s.channels })
    | .pipe left right =>
      let (n, inner) := s.newOutput
      let (flow, after) := run fuel true left (inner.connect 1 (.output n))
      if flow = .full then (.full, after)
      else
        let (channel, inner) := (after.returnTo s).newInput (after.collected n)
        let (flow, after) := run fuel true right (inner.connect 0 channel)
        let after := after.returnTo s
        if flow = .full then (.full, after) else settle tested (.next, after)
    | .negated body =>
      match run fuel true body s with
      | (.next, s) => s.ended (if s.status = 0 then 1 else 0)
      | result => result
    | .andThen left right =>
      match run fuel true left s with
      | (.next, s) => if s.status = 0 then run fuel tested right s else (.next, s)
      | result => result
    | .orElse left right =>
      match run fuel true left s with
      | (.next, s) => if s.status = 0 then (.next, s) else run fuel tested right s
      | result => result
    | .sequence left right =>
      match run fuel tested left s with
      | (.next, s) => run fuel tested right s
      | result => result
    | .subshell body =>
      let (flow, after) := run fuel tested body s
      let after := after.returnTo s
      if flow = .full || flow = .killed then (flow, after) else settle tested (.next, after)
    | .each name items body =>
      let (values, s) := match items with
        | some ws => allFields (substitute fuel) s ws
        | none => (s.arguments, s)
      runEach fuel tested name values body { s with status := 0 }
    | .repeated on condition body => runRepeated fuel tested on condition body 0 s
    | .choice condition yes no =>
      match run fuel true condition s with
      | (.next, s) =>
        if s.status = 0 then run fuel tested yes s
        else run fuel tested no { s with status := 0 }
      | result => result
    | .select subject arms =>
      let (value, s) := text (substitute fuel) s subject
      runArms fuel tested value arms { s with status := 0 }
    | .define name body => (s.define name body).ended 0

/-- Runs one turn of a loop for each value. -/
def runEach : (fuel : Nat) → (tested : Bool) → (name : String) → List String → Command →
    Session → Flow × Session
  | 0, _, _, _, _, s => (.full, s)
  | _, _, _, [], _, s => (.next, s)
  | fuel + 1, tested, name, value :: rest, body, s =>
    let (flow, s) := run fuel tested body (s.assign name value)
    match behindTurn flow with
    | none => runEach fuel tested name rest body s
    | some flow => (flow, s)

/-- Runs turns of a loop as long as the condition has the outcome `on`; `status` is that of
    the turns so far. -/
def runRepeated : (fuel : Nat) → (tested on : Bool) → Command → Command → (status : Nat) →
    Session → Flow × Session
  | 0, _, _, _, _, _, s => (.full, s)
  | fuel + 1, tested, on, condition, body, status, s =>
    match run fuel true condition s with
    | (.next, s) =>
      if (s.status == 0) ≠ on then s.ended status
      else
        let (flow, s) := run fuel tested body s
        match behindTurn flow with
        | none => runRepeated fuel tested on condition body s.status s
        | some flow => (flow, s)
    | result => result

/-- Runs the first arm with a pattern that a value fits. -/
def runArms : (fuel : Nat) → (tested : Bool) → (value : String) →
    List (List Word × Command) → Session → Flow × Session
  | 0, _, _, _, s => (.full, s)
  | _, _, _, [], s => (.next, s)
  | fuel + 1, tested, value, (patterns, body) :: rest, s =>
    let chosen := patterns.any fun p => agree (uncut (substitute fuel) s p).1 value
    if chosen then run fuel tested body s else runArms fuel tested value rest s

/-- Runs words with their assignments and redirections. -/
def runSimple : (fuel : Nat) → (tested : Bool) → (behind : Nat) → List (String × Word) →
    List Word → List Redirect → Session → Flow × Session
  | 0, _, _, _, _, _, s => (.full, s)
  | fuel + 1, tested, behind, assignments, words, rs, s =>
    let sub := substitute fuel
    let (words, s) := allFields sub { s with status := if words.isEmpty then 0 else s.status } words
    let assign (s : Session) : Session := assignments.foldl (fun s (name, w) =>
      let (value, s) := text sub s w
      s.assign name value) s
    match redirect sub rs s with
    | (.error complaint, after) =>
      ({ after with channels := s.channels } : Session).complain 2 (s.located behind complaint)
    | (.ok (), inner) =>
      match words with
      | [] => (.next, { assign inner with channels := s.channels })
      | ["exec"] => (.next, { inner with status := 0 })
      | name :: args =>
        let (flow, after) := invoke fuel tested behind name args (assign inner)
        let values := if assignments.isEmpty then after.values else inner.values
        (flow, { after with channels := s.channels, values := values })

/-- Runs a function, a program or a command of the shell by its name. -/
def invoke : (fuel : Nat) → (tested : Bool) → (behind : Nat) → (name : String) → List String →
    Session → Flow × Session
  | 0, _, _, _, _, s => (.full, s)
  | fuel + 1, tested, behind, name, args, s =>
    match s.functions.lookup name, control behind name args s, adjust name args s,
      utility? name with
    | some body, _, _, _ =>
      let (flow, after) := run fuel tested body { s with arguments := args }
      (if flow = .back then .next else flow, { after with arguments := s.arguments })
    | _, some result, _, _ => result
    | _, _, some result, _ => result
    | _, _, _, some use => use args s
    | _, _, _, none =>
      match name, args with
      | "eval", args => runText fuel (" ".intercalate args) s
      | "exec", name :: args =>
        match invoke fuel tested behind name args s with
        | (.next, s) => (.exit, s)
        | result => result
      | name, args =>
        if isShell name then awaited (runShell fuel args s)
        else if hasChar name '/' then
          match s.disk.resolve true name with
          | .ok (.entry _ (.file _ true)) => awaited (runShell fuel (name :: args) s)
          | .ok (.entry ..) => s.complain 126 (s.located behind (name ++ ": Permission denied"))
          | _ => s.complain 127 (s.located behind (name ++ ": not found"))
        else s.complain 127 (s.located behind (name ++ ": not found"))

/-- Runs another shell with the arguments of its command line. -/
def runShell : (fuel : Nat) → List String → Session → Flow × Session
  | 0, _, s => (.full, s)
  | fuel + 1, args, s =>
    let (program, name, args, s) : Option String × String × List String × Session := match args with
      | "-c" :: program :: name :: args => (some program, name, args, s)
      | "-c" :: program :: [] => (some program, "sh", [], s)
      | "-s" :: args =>
        let (bytes, s) := s.read
        (some (decodeLossy bytes), "sh", args, s)
      | file :: args => ((s.disk.contentsAt file).toOption.map decodeLossy, file, args, s)
      | [] =>
        let (bytes, s) := s.read
        (some (decodeLossy bytes), "sh", [], s)
    match program with
    | none => s.complain 2 ("sh: 0: cannot open " ++ name ++ ": No such file")
    | some program =>
      let inner := { s with
        name := name, arguments := args, functions := [], status := 0, strict := false }
      let (flow, after) := runText fuel program inner
      let after := after.returnTo s
      match flow with
      | .full => (.full, after)
      | .killed => (.killed, after)
      | _ => (.next, after)

/-- Runs the text of a program in the session. -/
def runText : (fuel : Nat) → String → Session → Flow × Session
  | 0, _, s => (.full, s)
  | fuel + 1, program, s =>
    match program? program with
    | none =>
      let (_, s) := s.complain 2 (s.name ++ ": 1: Syntax error")
      (.exit, s)
    | some (c, lines) =>
      let (flow, after) := run fuel false c { s with lines := lines }
      (flow, { after with lines := s.lines })

/-- Runs the text of a program for its output. -/
def substitute : (fuel : Nat) → Substitute
  | 0, _, s => ([], s)
  | fuel + 1, program, s =>
    let (n, inner) := s.newOutput
    let (_, after) := runText fuel program (inner.connect 1 (.output n))
    (after.collected n, after.returnTo s)

end

/-- A bound of running that no program in use comes near to. -/
def plenty : Nat := 10000000

end DeploymentBackup.Shell
