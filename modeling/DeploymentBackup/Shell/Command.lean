import DeploymentBackup.Shell.Word

namespace DeploymentBackup.Shell

/-!
# Commands

* `Command` — a command of a shell.
* `program?` — the command that a text spells.
-/

/-- A redirection with its target. -/
structure Redirect where
  descriptor : Nat
  kind : RedirectKind
  target : Word
deriving Repr

/-- A command. -/
inductive Command
  | nothing
  /-- Words with assignments and redirections, and the number of line ends behind them. -/
  | simple (linesBehind : Nat) (assignments : List (String × Word)) (words : List Word)
      (redirects : List Redirect)
  | redirected (body : Command) (redirects : List Redirect)
  | pipe (left right : Command)
  | negated (body : Command)
  | andThen (left right : Command)
  | orElse (left right : Command)
  | sequence (left right : Command)
  | subshell (body : Command)
  /-- One turn for each item; without items, for each argument. -/
  | each (name : String) (items : Option (List Word)) (body : Command)
  /-- Repeats as long as the condition has the outcome `on`. -/
  | repeated (on : Bool) (condition body : Command)
  | choice (condition yes no : Command)
  | select (subject : Word) (arms : List (List Word × Command))
  /-- Gives a command a name. -/
  | define (name : String) (body : Command)
deriving Repr

/-- The reserved word at the front, if a word is one. -/
def reserved? : List Token → Option String
  | .word w :: _ => w.bare?.map String.ofList
  | _ => none

/-- The words that end a list of commands. -/
def isCloser (s : String) : Bool :=
  ["then", "else", "elif", "fi", "do", "done", "esac", "\x7d"].contains s

/-- A list of commands ends here. -/
def atCloser (ts : List Token) : Bool :=
  match ts with
  | [] => true
  | .operator ")" :: _ | .operator ";;" :: _ => true
  | ts => (reserved? ts).any isCloser

/-- The tokens behind a given reserved word. -/
def expect? (word : String) (ts : List Token) : Option (List Token) :=
  if reserved? ts = some word then some ts.tail else none

/-- The tokens behind line ends. -/
def skipLines : List Token → List Token
  | .newline :: rest => skipLines rest
  | ts => ts

/-- The number of line ends among tokens. -/
def lineEnds (ts : List Token) : Nat :=
  ts.count .newline

/-- Reads an assignment at the front of a word. -/
def assignment? (w : Word) : Option (String × Word) :=
  match w with
  | .literal false text :: rest =>
    let name := text.takeWhile isNameChar
    match text.dropWhile isNameChar with
    | '=' :: value =>
      if name.isEmpty || name.head?.any Char.isDigit then none
      else some (String.ofList name,
        if value.isEmpty then rest else .literal false value :: rest)
    | _ => none
  | _ => none

/-- Reads the redirections at the front. -/
def redirects : List Token → List Redirect × List Token
  | .redirect descriptor kind :: .word target :: rest =>
    let (more, rest) := redirects rest
    (⟨descriptor, kind, target⟩ :: more, rest)
  | ts => ([], ts)

/-- Reads the words and redirections of a simple command. -/
def simpleRest : List Token → (List Word × List Redirect) × List Token
  | .word w :: rest =>
    let ((words, redirects), rest) := simpleRest rest
    ((w :: words, redirects), rest)
  | .redirect descriptor kind :: .word target :: rest =>
    let ((words, redirects), rest) := simpleRest rest
    ((words, ⟨descriptor, kind, target⟩ :: redirects), rest)
  | ts => (([], []), ts)

/-- Cuts the assignments off the front of words. -/
def cutAssignments : List Word → List (String × Word) × List Word
  | w :: rest =>
    match assignment? w with
    | some a =>
      let (more, rest) := cutAssignments rest
      (a :: more, rest)
    | none => ([], w :: rest)
  | [] => ([], [])

/-- Reads the patterns of an arm up to the parenthesis behind them. -/
def armPatterns : List Token → Option (List Word × List Token)
  | .word w :: .operator "|" :: rest => (armPatterns rest).map fun (ws, rest) => (w :: ws, rest)
  | .word w :: .operator ")" :: rest => some ([w], rest)
  | _ => none

/-- Reads the items of a loop up to the line end behind them. -/
def loopItems : List Token → List Word × List Token
  | .word w :: rest =>
    let (ws, rest) := loopItems rest
    (w :: ws, rest)
  | ts => ([], ts)

/-- The tokens behind one separator. -/
def skipSeparator : List Token → List Token
  | .operator ";" :: rest => skipLines rest
  | ts => skipLines ts

/-- Adds the redirections behind a compound command. -/
def close (body : Command) (ts : List Token) : Command × List Token :=
  let (rs, ts) := redirects ts
  (if rs.isEmpty then body else .redirected body rs, ts)

mutual

/-- Reads commands up to what ends a list. -/
def list : (fuel : Nat) → List Token → Option (Command × List Token)
  | 0, _ => none
  | fuel + 1, ts => do
    let ts := skipLines ts
    if atCloser ts then return (.nothing, ts)
    let (first, ts) ← chain fuel ts
    match ts with
    | .operator ";" :: rest | .operator "&" :: rest | .newline :: rest =>
      let (more, ts) ← list fuel rest
      return (.sequence first more, ts)
    | ts => return (first, ts)

/-- Reads pipelines joined by `&&` and `||`. -/
def chain : (fuel : Nat) → List Token → Option (Command × List Token)
  | 0, _ => none
  | fuel + 1, ts => do
    let (first, ts) ← pipeline fuel ts
    chainFrom fuel first ts

/-- Goes on with a chain behind its first part. -/
def chainFrom : (fuel : Nat) → Command → List Token → Option (Command × List Token)
  | 0, _, _ => none
  | fuel + 1, first, ts =>
    match ts with
    | .operator "&&" :: rest => do
      let (next, ts) ← pipeline fuel (skipLines rest)
      chainFrom fuel (.andThen first next) ts
    | .operator "||" :: rest => do
      let (next, ts) ← pipeline fuel (skipLines rest)
      chainFrom fuel (.orElse first next) ts
    | ts => some (first, ts)

/-- Reads commands joined by pipes. -/
def pipeline : (fuel : Nat) → List Token → Option (Command × List Token)
  | 0, _ => none
  | fuel + 1, ts =>
    match expect? "!" ts with
    | some ts => (pipeline fuel ts).map fun (c, ts) => (.negated c, ts)
    | none => do
      let (first, ts) ← command fuel ts
      match ts with
      | .operator "|" :: rest =>
        let (next, ts) ← pipeline fuel (skipLines rest)
        return (.pipe first next, ts)
      | ts => return (first, ts)

/-- Reads one command with its redirections. -/
def command : (fuel : Nat) → List Token → Option (Command × List Token)
  | 0, _ => none
  | fuel + 1, ts =>
    match ts with
    | .operator "(" :: rest => do
      let (body, ts) ← list fuel rest
      match ts with
      | .operator ")" :: ts =>
        let (rs, ts) := redirects ts
        return (.redirected (.subshell body) rs, ts)
      | _ => none
    | .word w :: .operator "(" :: .operator ")" :: rest => do
      let name ← w.bare?
      let (body, ts) ← command fuel (skipLines rest)
      return (.define (String.ofList name) body, ts)
    | ts =>
      match reserved? ts with
      | some "\x7b" => do
        let (body, ts) ← list fuel ts.tail
        return close body (← expect? "\x7d" ts)
      | some "if" => do
        let (body, ts) ← branch fuel ts.tail
        return close body ts
      | some "while" => loop fuel true ts.tail
      | some "until" => loop fuel false ts.tail
      | some "for" => each fuel ts.tail
      | some "case" =>
        match ts.tail with
        | .word subject :: rest => do
          let (arms, ts) ← arms fuel (← expect? "in" (skipLines rest))
          return close (.select subject arms) ts
        | _ => none
      | word =>
        if word.any isCloser then none
        else
          let ((words, rs), ts') := simpleRest ts
          let (assignments, words) := cutAssignments words
          if ts'.length = ts.length then none
          else some (.simple (lineEnds ts) assignments words rs, ts')

/-- Reads the condition and the branches of a choice, up to its end. -/
def branch : (fuel : Nat) → List Token → Option (Command × List Token)
  | 0, _ => none
  | fuel + 1, ts => do
    let (condition, ts) ← list fuel ts
    let (yes, ts) ← list fuel (← expect? "then" ts)
    match reserved? ts with
    | some "elif" =>
      let (no, ts) ← branch fuel ts.tail
      return (.choice condition yes no, ts)
    | some "else" =>
      let (no, ts) ← list fuel ts.tail
      return (.choice condition yes no, ← expect? "fi" ts)
    | _ => return (.choice condition yes .nothing, ← expect? "fi" ts)

/-- Reads a loop with a condition. -/
def loop : (fuel : Nat) → (on : Bool) → List Token → Option (Command × List Token)
  | 0, _, _ => none
  | fuel + 1, on, ts => do
    let (condition, ts) ← list fuel ts
    let (body, ts) ← list fuel (← expect? "do" ts)
    return close (.repeated on condition body) (← expect? "done" ts)

/-- Reads a loop over items. -/
def each : (fuel : Nat) → List Token → Option (Command × List Token)
  | 0, _ => none
  | fuel + 1, ts => do
    let name ← reserved? ts
    let ts := skipLines ts.tail
    let (items, ts) :=
      match expect? "in" ts with
      | some ts =>
        let (items, ts) := loopItems ts
        (some items, ts)
      | none => (none, ts)
    let (body, ts) ← list fuel (← expect? "do" (skipSeparator ts))
    return close (.each name items body) (← expect? "done" ts)

/-- Reads the arms of a selection, up to its end. -/
def arms : (fuel : Nat) → List Token → Option (List (List Word × Command) × List Token)
  | 0, _ => none
  | fuel + 1, ts => do
    let ts := skipLines ts
    match expect? "esac" ts with
    | some ts => return ([], ts)
    | none =>
      let ts := match ts with
        | .operator "(" :: ts => ts
        | ts => ts
      let (patterns, ts) ← armPatterns ts
      let (body, ts) ← list fuel ts
      let ts := match ts with
        | .operator ";;" :: ts => ts
        | ts => ts
      let (more, ts) ← arms fuel ts
      return ((patterns, body) :: more, ts)

end

/-- The command that a text spells, and the number of its line ends; none when it is not well
    formed. -/
def program? (text : String) : Option (Command × Nat) := do
  let ts ← tokens? text
  match ← list (4 * ts.length + 8) ts with
  | (c, []) => return (c, lineEnds ts)
  | _ => none

end DeploymentBackup.Shell
