import DeploymentBackup.Digest.Sha256
import DeploymentBackup.Shell.Escape
import DeploymentBackup.Shell.Session

namespace DeploymentBackup.Shell

open Text

/-!
# Utilities

The programs that a shell finds without being told where they are. Each one reads the input
of the session, writes to its outputs, may change the disk, and leaves a status.

* `Utility` — a program.
* `utility?` — the program of a name.
-/

/-- A program that is given its arguments. -/
abbrev Utility := List String → Session → Flow × Session

/-- Succeeds and does nothing else. -/
def succeed : Utility :=
  fun _ s => s.ended 0

/-- Fails and does nothing else. -/
def failWith (status : Nat) : Utility :=
  fun _ s => s.ended status

/-! ### Text -/

/-- Prints its arguments; `escaped` says whether a backslash introduces a character. -/
def echo (escaped : Bool) : Utility := fun args s =>
  let (newline, args) := match args with
    | "-n" :: rest => (false, rest)
    | args => (true, args)
  let text := " ".intercalate args
  let (bytes, stop) := if escaped then unescape text.length text.toList else (encode text, false)
  s.answer (if newline && !stop then bytes ++ encode "\n" else bytes) 0

/-- Prints its arguments by a format. -/
def printf : Utility := fun args s =>
  match args with
  | [] => s.complain 2 (s.located s.lines "printf: usage: printf format [arg ...]")
  | "--" :: text :: rest | text :: rest =>
    let p := format text rest
    match s.answer p.bytes 0, p.refused with
    | (.next, s), arg :: _ =>
      s.complain 1 (s.located s.lines ("printf: " ++ arg ++ ": expected numeric value"))
    | result, _ => result

/-- The contents of a file, or the input for `-`. -/
def contentsOf (name : String) (s : Session) : Except Disk.Fault Bytes × Session :=
  if name = "-" then
    let (bytes, s) := s.read
    (.ok bytes, s)
  else if name = "/dev/null" then (.ok [], s)
  else (s.disk.contentsAt name, s)

/-- Does something with the name and the contents of each file, or with the input. -/
def eachFile (program : String) (use : String → Bytes → Bytes) (files : List String) : Utility :=
  fun _ s =>
  (if files.isEmpty then ["-"] else files).foldl (fun (flow, s) name =>
    if flow ≠ .next then (flow, s)
    else
      match contentsOf name s with
      | (.error fault, s) =>
        s.complain 1 (program ++ ": " ++ name ++ ": " ++ reason fault)
      | (.ok bytes, s) => s.answer (use name bytes) s.status) (.next, { s with status := 0 })

/-- Prints files one behind the other. -/
def cat : Utility := fun args s =>
  if args.contains "/dev/zero" then s.pour [0]
  else eachFile "cat" (fun _ bytes => bytes) (args.filter (· ≠ "-u")) args s

/-- Prints the digest and the name of each file. -/
def sha256sum : Utility := fun args s =>
  eachFile "sha256sum" (fun name bytes => encode (Digest.sha256Hex bytes ++ "  " ++ name ++ "\n"))
    (args.filter fun a => a ≠ "-b" && a ≠ "-t") args s

/-- The lines of bytes, with their line ends. -/
def byteLines (bytes : Bytes) : List Bytes :=
  let rec go (line : Bytes) : Bytes → List Bytes
    | [] => if line.isEmpty then [] else [line.reverse]
    | b :: rest => if b = 0x0A then (b :: line).reverse :: go [] rest else go (b :: line) rest
  go [] bytes

/-- What a utility takes of a text, and its files. -/
structure Portion where
  bytes : Option Nat
  lines : Nat
  files : List String

/-- Reads the options of a utility that takes a part of a text. -/
def Portion.of (p : Portion) : List String → Portion
  | "-c" :: n :: rest => Portion.of { p with bytes := n.toNat? } rest
  | "-n" :: n :: rest => Portion.of { p with lines := (n.toNat?).getD 0, bytes := none } rest
  | arg :: rest =>
    match arg.toList with
    | '-' :: 'c' :: d :: ds => Portion.of { p with bytes := (String.ofList (d :: ds)).toNat? } rest
    | '-' :: 'n' :: d :: ds =>
      Portion.of { p with lines := ((String.ofList (d :: ds)).toNat?).getD 0 } rest
    | '-' :: d :: ds =>
      Portion.of { p with lines := ((String.ofList (d :: ds)).toNat?).getD 0 } rest
    | _ => Portion.of { p with files := p.files ++ [arg] } rest
  | [] => p

/-- Prints the beginning of files or of the input. Bytes that were not asked for keep
    waiting. -/
def head : Utility := fun args s =>
  let p := Portion.of ⟨none, 10, []⟩ args
  let part (_ : String) (bytes : Bytes) : Bytes :=
    match p.bytes with
    | some n => bytes.take n
    | none => ((byteLines bytes).take p.lines).flatten
  match p.files, p.bytes with
  | ["/dev/zero"], some n => s.answer (List.replicate n 0) 0
  | [], some n =>
    let bytes := s.waiting 0
    (s.leaveWaiting 0 (bytes.drop n)).answer (bytes.take n) 0
  | files, _ => eachFile "head" part files args s

/-- Prints the end of files or of the input. -/
def tail : Utility := fun args s =>
  let p := Portion.of ⟨none, 10, []⟩ args
  let part (_ : String) (bytes : Bytes) : Bytes :=
    match p.bytes with
    | some n => bytes.drop (bytes.length - n)
    | none =>
      let lines := byteLines bytes
      (lines.drop (lines.length - p.lines)).flatten
  eachFile "tail" part p.files args s

/-- Counts bytes, lines or words. -/
def wc : Utility := fun args s =>
  let files := args.filter fun a => !("-".toList.isPrefixOf a.toList)
  let words (bytes : Bytes) : Nat :=
    (Text.pieces (α := Char) ' ' ((decodeLossy bytes).toList.map fun c =>
      if isBlank c then ' ' else c)).countP (· ≠ [])
  let count (bytes : Bytes) : List Nat :=
    (if args.isEmpty || args.contains "-l" then [bytes.count 0x0A] else []) ++
      (if args.isEmpty || args.contains "-w" then [words bytes] else []) ++
      (if args.isEmpty || args.contains "-c" then [bytes.length] else [])
  let tell (name : String) (bytes : Bytes) : Bytes :=
    let numbers := (count bytes).map fun n => toString n
    let numbers := if numbers.length = 1 then numbers
      else numbers.map fun n => String.ofList (List.replicate (7 - n.length) ' ') ++ n
    encode (" ".intercalate numbers ++ (if files.isEmpty then "" else " " ++ name) ++ "\n")
  eachFile "wc" tell files args s

/-- Prints integers in order. -/
def seq : Utility := fun args s =>
  let print (first step last : Int) :=
    let count := if step = 0 then 0 else ((last - first) / step + 1).toNat
    s.answer (encode (String.join ((List.range count).map fun (i : Nat) =>
      toString (first + step * i) ++ "\n"))) 0
  match args.map (·.toInt?) with
  | [some last] => print 1 1 last
  | [some first, some last] => print first 1 last
  | [some first, some step, some last] => print first step last
  | _ => s.complain 1 "seq: invalid argument"

/-- The characters of a set of `tr`. -/
def characterSet (set : String) : List UInt8 :=
  let rec go : List UInt8 → List UInt8
    | lo :: 0x2D :: hi :: rest =>
      (List.range (hi.toNat + 1 - lo.toNat)).map (fun n => (lo.toNat + n).toUInt8) ++ go rest
    | b :: rest => b :: go rest
    | [] => []
  go (unescape set.length set.toList).1

/-- Replaces or deletes characters of the input. -/
def tr : Utility := fun args s =>
  let (bytes, s) := s.read
  match args with
  | ["-d", set] => s.answer (bytes.filter fun b => !(characterSet set).contains b) 0
  | [source, target] =>
    let target := characterSet target
    let swap (b : UInt8) : UInt8 :=
      match (characterSet source).idxOf? b with
      | some n => (target[n]?.or target.getLast?).getD b
      | none => b
    s.answer (bytes.map swap) 0
  | _ => s.complain 1 "tr: invalid arguments"

/-- Copies blocks of a file or of the input. -/
def dd : Utility := fun args s =>
  let option (name : String) : Option String :=
    args.findSome? fun a => (stripPrefix? (name ++ "=").toList a.toList).map String.ofList
  let number (text : String) : Nat :=
    let cs := text.toList
    let unit := match cs.getLast? with
      | some 'k' | some 'K' => 1024
      | some 'M' => 1024 * 1024
      | _ => 1
    ((valueIn 10 (cs.takeWhile Char.isDigit)).getD 0) * unit
  let size := (option "bs").elim 512 number
  let count := (option "count").map number
  let limit := count.map (· * size)
  match option "if" with
  | some "/dev/zero" =>
    match limit with
    | some n => s.answer (List.replicate n 0) 0
    | none => s.pour [0]
  | some name =>
    match s.disk.contentsAt name with
    | .ok bytes => s.answer (limit.elim bytes bytes.take) 0
    | .error fault => s.complain 1 ("dd: failed to open '" ++ name ++ "': " ++ reason fault)
  | none =>
    let bytes := s.waiting 0
    let taken := limit.elim bytes bytes.take
    (s.leaveWaiting 0 (bytes.drop taken.length)).answer taken 0

/-! ### Tests -/

/-- The entry that a path leads to. -/
def entryAt (s : Session) (path : String) : Option Entry :=
  match s.disk.resolve true path with
  | .ok (.entry _ entry) => some entry
  | _ => none

/-- The outcome of a test of one word. -/
def unaryTest (op word : String) (s : Session) : Option Bool :=
  let entry := entryAt s word
  match op with
  | "-n" => some (word ≠ "")
  | "-z" => some (word = "")
  | "-e" | "-r" | "-w" => some entry.isSome
  | "-f" => some (entry.any fun | .file .. => true | _ => false)
  | "-d" => some (entry.any fun | .directory _ => true | _ => false)
  | "-s" => some (entry.any fun | .file contents _ => !contents.isEmpty | _ => true)
  | "-x" => some (entry.any fun | .file _ executable => executable | _ => true)
  | "-h" | "-L" =>
    some <| match s.disk.resolve false word with
      | .ok (.entry _ (.link _)) => true
      | _ => false
  | "-t" => some false
  | _ => none

/-- The outcome of a test of two words. -/
def binaryTest (a op b : String) : Option Bool :=
  let compare (f : Int → Int → Bool) : Option Bool :=
    match a.toInt?, b.toInt? with
    | some x, some y => some (f x y)
    | _, _ => none
  match op with
  | "=" | "==" => some (a = b)
  | "!=" => some (a ≠ b)
  | "-eq" => compare (· = ·)
  | "-ne" => compare (· ≠ ·)
  | "-lt" => compare (· < ·)
  | "-le" => compare (· ≤ ·)
  | "-gt" => compare (fun x y => y < x)
  | "-ge" => compare (fun x y => y ≤ x)
  | _ => none

/-- The outcome of a test; `fuel` bounds the number of words. -/
def testWords (s : Session) : (fuel : Nat) → List String → Option Bool
  | 0, _ => none
  | _, [] => some false
  | _, [word] => some (word ≠ "")
  | fuel + 1, words =>
    match cutAt "-o" words, cutAt "-a" words, words with
    | _, _, [a, op, b] =>
      match binaryTest a op b with
      | some outcome => some outcome
      | none => if a = "!" then (testWords s fuel [op, b]).map (!·) else none
    | some (left, right), _, _ => do
      return (← testWords s fuel left) || (← testWords s fuel right)
    | none, some (left, right), _ => do
      return (← testWords s fuel left) && (← testWords s fuel right)
    | none, none, "!" :: rest => (testWords s fuel rest).map (!·)
    | none, none, [op, word] => unaryTest op word s
    | _, _, _ => none

/-- Tells by its status whether a test holds. -/
def test (words : List String) (s : Session) : Flow × Session :=
  match testWords s (words.length + 1) words with
  | some outcome => s.ended (if outcome then 0 else 1)
  | none => s.complain 2 (s.located s.lines "test: bad expression")

/-- A test between brackets. -/
def bracketTest : Utility := fun args s =>
  if args.getLast? = some "]" then test args.dropLast s
  else s.complain 2 (s.located s.lines "[: missing ]")

/-! ### Files and processes -/

/-- Makes changes of the disk, each for one argument. -/
def changeEach (program verb : String) (change : String → Disk → Except Disk.Fault Unit × Disk) :
    Utility := fun args s =>
  args.foldl (fun (flow, s) name =>
    match change name s.disk with
    | (.ok (), disk) => (flow, { s with disk := disk })
    | (.error fault, disk) =>
      ({ s with disk := disk } : Session).complain 1
        (program ++ ": " ++ verb ++ " '" ++ name ++ "': " ++ reason fault))
    (.next, { s with status := 0 })

/-- The arguments that are not options. -/
def operands (args : List String) : List String :=
  args.filter fun a => !("-".toList.isPrefixOf a.toList)

/-- An option of one letter is given. -/
def hasOption (letter : Char) (args : List String) : Bool :=
  args.any fun a => "-".toList.isPrefixOf a.toList && hasChar a letter

/-- Removes files, and directories if it is told to. -/
def rm : Utility := fun args s =>
  let change (name : String) (d : Disk) : Except Disk.Fault Unit × Disk :=
    match d.resolve false name with
    | .ok (.entry path (.directory _)) =>
      if hasOption 'r' args || hasOption 'R' args then (.ok (), d.remove path)
      else (.error .isDirectory, d)
    | .ok (.entry path _) => (.ok (), d.remove path)
    | .ok (.free _) => (if hasOption 'f' args then .ok () else .error .notFound, d)
    | .error fault => (if hasOption 'f' args then .ok () else .error fault, d)
  changeEach "rm" "cannot remove" change (operands args) s

/-- Makes directories. -/
def mkdir : Utility := fun args s =>
  let change (name : String) (d : Disk) : Except Disk.Fault Unit × Disk :=
    if hasOption 'p' args then d.makeDirectories name
    else
      match d.makeDirectoryAt name with
      | .ok d => (.ok (), d)
      | .error fault => (.error fault, d)
  changeEach "mkdir" "cannot create directory" change (operands args) s

/-- Makes files that do not exist. -/
def touch : Utility := fun args s =>
  let change (name : String) (d : Disk) : Except Disk.Fault Unit × Disk :=
    if d.exists? name then (.ok (), d)
    else
      match d.writeFile name [] false with
      | .ok d => (.ok (), d)
      | .error fault => (.error fault, d)
  changeEach "touch" "cannot touch" change (operands args) s

/-- Copies the input to the output and to files. -/
def tee : Utility := fun args s =>
  let (bytes, s) := s.read
  let disk := (operands args).foldl (fun (d : Disk) name =>
    (d.writeFile name bytes false).toOption.getD d) s.disk
  ({ s with disk := disk } : Session).answer bytes 0

/-- The signals that do not end a process, by number and by name. -/
def harmlessSignals : List String :=
  ["0", "17", "18", "23", "28", "CHLD", "CONT", "URG", "WINCH"]

/-- Sends a signal to a process; the shell is the only one there is. -/
def kill : Utility := fun args s =>
  let (signal, targets) := match args with
    | "-s" :: name :: rest => (name, rest)
    | arg :: rest =>
      match arg.toList with
      | '-' :: c :: cs => (String.ofList (c :: cs), rest)
      | _ => ("TERM", args)
    | [] => ("TERM", [])
  let signal := match stripPrefix? "SIG".toList signal.toList with
    | some name => String.ofList name
    | none => signal
  if targets.contains Session.processNumber then
    if harmlessSignals.contains (upperAscii signal) then s.ended 0 else (.killed, s)
  else s.complain 1 (s.located s.lines "kill: No such process")

/-- The last step of a path, without an ending if it has that one. -/
def basename : Utility := fun args s =>
  let last (path : String) := ((PathText.of path).steps.filter (· ≠ ".")).getLast?.getD "/"
  match args with
  | [path] => s.answer (encode (last path ++ "\n")) 0
  | [path, ending] =>
    let name := last path
    let cs := name.toList
    let cut := if ending.toList.isSuffixOf cs && ending ≠ name then
      String.ofList (cs.take (cs.length - ending.length)) else name
    s.answer (encode (cut ++ "\n")) 0
  | _ => s.complain 1 "basename: missing operand"

/-- The directory of the shell. -/
def pwd : Utility := fun _ s =>
  s.answer (encode ("/" ++ "/".intercalate s.disk.workdir ++ "\n")) 0

/-- The utilities that a shell carries out itself or finds without being told where. -/
def utilities : List (String × Utility) :=
  [(":", succeed), ("true", succeed), ("false", failWith 1), ("echo", echo true),
   ("printf", printf), ("cat", cat), ("head", head), ("tail", tail), ("wc", wc), ("seq", seq),
   ("sha256sum", sha256sum), ("tr", tr), ("dd", dd), ("yes", fun args s =>
      s.pour (encode ((if args.isEmpty then "y" else " ".intercalate args) ++ "\n"))),
   ("test", test), ("[", bracketTest), ("rm", rm), ("mkdir", mkdir), ("touch", touch),
   ("tee", tee), ("kill", kill), ("sleep", succeed), ("sync", succeed), ("trap", succeed),
   ("umask", succeed), ("wait", succeed), ("basename", basename), ("pwd", pwd)]

/-- The utility of a name. -/
def utility? (name : String) : Option Utility :=
  utilities.lookup name

/-- The utilities that only a running shell knows. -/
def builtins : List String :=
  [":", "trap", "umask", "wait"]

end DeploymentBackup.Shell
