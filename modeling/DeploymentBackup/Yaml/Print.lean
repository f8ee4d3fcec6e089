import DeploymentBackup.Text.Hex
import DeploymentBackup.Text.Lines
import DeploymentBackup.Yaml.Character
import DeploymentBackup.Yaml.Meaning

namespace DeploymentBackup.Yaml

/-!
# Writing documents

Documents are written in block style, a mapping with an entry on each line. Each text is
written in the plainest style that reads back as the same text: plain, between single
quotes, between double quotes with escapes, or as a literal block when it has several lines.

* `Layout` — a document of texts, mappings and lists.
* `Form.of` — the style of a text.
* `print` — the text of a document.
-/

/-- A document of texts. -/
inductive Layout
  | text (value : String)
  | mapping (entries : List (String × Layout))
  | list (items : List Layout)

/-! ### The style of a text -/

/-- A character that is written as itself. -/
def isPrintable (c : Char) : Bool :=
  let n := c.toNat
  n = 0x0A || (0x20 ≤ n && n ≤ 0x7E) || (0xA0 ≤ n && n ≤ 0xD7FF) ||
    (0xE000 ≤ n && n ≤ 0xFFFD && n ≠ 0xFEFF) || 0x10000 ≤ n

/-- A space right before a line break. -/
def spaceBeforeBreak : List Char → Bool
  | ' ' :: c :: rest => isBreak c || spaceBeforeBreak (c :: rest)
  | _ :: rest => spaceBeforeBreak rest
  | [] => false

/-- A space right behind a line break. -/
def spaceBehindBreak : List Char → Bool
  | b :: c :: rest => (isBreak b && c = ' ') || spaceBehindBreak (c :: rest)
  | _ => false

/-- An indicator that no plain scalar may start with. -/
def isLeadIndicator (c : Char) : Bool :=
  "#,[]\x7b\x7d&*!|>'\"%@\x60".toList.contains c

/-- The start of a text that would be read as something else than a plain scalar. -/
def hasIndicatorAtStart : List Char → Bool
  | '-' :: '-' :: '-' :: _ => true
  | '.' :: '.' :: '.' :: _ => true
  | c :: rest => isLeadIndicator c || ((c = '-' || c = '?' || c = ':') && atGap rest)
  | [] => false

/-- A colon before a blank, or a number sign behind one. -/
def hasIndicatorInside : List Char → Bool
  | c :: d :: rest =>
    (isGap c && d = '#') || (d = ':' && atGap rest) || hasIndicatorInside (d :: rest)
  | _ => false

/-- What is known of a text before its style is chosen. -/
structure Traits where
  plain : Bool
  single : Bool
  literal : Bool

/-- In which styles a text can be written. -/
def Traits.of (cs : List Char) : Traits :=
  let multiline := cs.any isBreak
  let special := !cs.all isPrintable
  let outer (p : Char → Bool) : Bool := cs.head?.any p || cs.getLast?.any p
  { plain := !special && !multiline && !outer (· = ' ') && !hasIndicatorAtStart cs &&
      !hasIndicatorInside cs
    single := !special && !spaceBehindBreak cs && !spaceBeforeBreak cs
    literal := !special && !spaceBeforeBreak cs && cs.getLast? ≠ some ' ' && cs ≠ [] }

/-- A text that a plain scalar would not read as a text, or that looks like a number. -/
def needsQuotes (text : String) : Bool :=
  match meaningOf text with
  | .text _ => isZeroLed text.toList
  | _ => true

/-- How a text is written. -/
inductive Form
  | plain
  | single
  | double
  | literal
deriving DecidableEq, Repr

/-- The style of a text. -/
def Form.of (text : String) : Form :=
  let cs := text.toList
  let traits := Traits.of cs
  if cs.contains '\n' then
    if traits.literal then .literal else .double
  else if traits.plain && !needsQuotes text then .plain
  else if traits.single then .single
  else .double

/-! ### The styles -/

/-- Spaces up to a column. -/
def spaces (n : Nat) : List Char :=
  List.replicate n ' '

/-- The characters between single quotes. Behind a line break, the line is indented. -/
def singleChars (indent : Nat) : (broken : Bool) → List Char → List Char
  | broken, [] => if broken then spaces indent else []
  | broken, c :: rest =>
    if isBreak c then c :: singleChars indent true rest
    else
      (if broken then spaces indent else []) ++
        (if c = '\'' then ['\'', '\''] else [c]) ++ singleChars indent false rest

/-- The upper-case hexadecimal digits of a number, at least `width` of them. -/
def upperHex : (width n : Nat) → List Char
  | 0, _ => []
  | width + 1, n => upperHex width (n / 16) ++ [(Text.hexDigit n).toUpper]

/-- A character as an escape. -/
def escapeOf (c : Char) : List Char :=
  match c with
  | '\x00' => ['\\', '0']
  | '\x07' => ['\\', 'a']
  | '\x08' => ['\\', 'b']
  | '\t' => ['\\', 't']
  | '\n' => ['\\', 'n']
  | '\x0B' => ['\\', 'v']
  | '\x0C' => ['\\', 'f']
  | '\r' => ['\\', 'r']
  | '\x1B' => ['\\', 'e']
  | '"' => ['\\', '"']
  | '\\' => ['\\', '\\']
  | '\u0085' => ['\\', 'N']
  | '\u00A0' => ['\\', '_']
  | '\u2028' => ['\\', 'L']
  | '\u2029' => ['\\', 'P']
  | c =>
    if c.toNat ≤ 0xFF then '\\' :: 'x' :: upperHex 2 c.toNat
    else if c.toNat ≤ 0xFFFF then '\\' :: 'u' :: upperHex 4 c.toNat
    else '\\' :: 'U' :: upperHex 8 c.toNat

/-- A character between double quotes. -/
def doubleChar (c : Char) : List Char :=
  if !isPrintable c || isBreak c || c = '"' || c = '\\' then escapeOf c else [c]

/-- The lines of a literal block, each indented unless it is empty. -/
def literalChars (indent : Nat) : (broken : Bool) → List Char → List Char
  | _, [] => []
  | broken, c :: rest =>
    if isBreak c then c :: literalChars indent true rest
    else (if broken then spaces indent else []) ++ c :: literalChars indent false rest

/-- The header of a literal block: the indentation is given when the text does not show it,
    and the breaks at the end are kept or dropped where one would not be right. -/
def literalHeader (cs : List Char) : List Char :=
  let hint := if cs.head?.any fun c => c = ' ' || isBreak c then ['2'] else []
  let chomping :=
    match cs.reverse with
    | [] => ['-']
    | [b] => if isBreak b then ['+'] else ['-']
    | b :: before :: _ =>
      if !isBreak b then ['-'] else if isBreak before then ['+'] else []
  '|' :: hint ++ chomping

/-- A text in a style. Lines behind the first start at column `indent`. -/
def Form.write (form : Form) (indent : Nat) (text : String) : List Char :=
  let cs := text.toList
  match form with
  | .plain => cs
  | .single => '\'' :: singleChars indent false cs ++ ['\'']
  | .double => '"' :: cs.flatMap doubleChar ++ ['"']
  | .literal => literalHeader cs ++ '\n' :: literalChars indent true cs

/-! ### Documents -/

/-- A key on a line of its own before its colon: short and on one line. -/
def isSimpleKey (key : String) : Bool :=
  key.utf8ByteSize ≤ 128 && !key.toList.any isBreak

/-- A text as a value, with the line break behind it. A literal block that ends in a break
    has it already. -/
def writeText (indent : Nat) (text : String) : List Char :=
  let form := Form.of text
  let written := form.write indent text
  if form = .literal && text.toList.getLast?.any isBreak then written else written ++ ['\n']

mutual

/-- A value behind the indicator before it, where that stands in a mapping at column
    `indent`; an indicator that opens a line of its own admits a collection beside it. -/
def writeValue (indent : Nat) : Layout → List Char
  | .text value => ' ' :: writeText (indent + 2) value
  | .mapping [] => " \x7b\x7d\n".toList
  | .mapping entries => '\n' :: writeEntries (indent + 2) true entries
  | .list [] => " []\n".toList
  | .list items => '\n' :: writeItems indent true items

/-- A value that starts on the line of a dash or of a long key. -/
def writeBeside (indent : Nat) : Layout → List Char
  | .text value => writeText indent value
  | .mapping [] => "\x7b\x7d\n".toList
  | .mapping entries => writeEntries indent false entries
  | .list [] => "[]\n".toList
  | .list items => writeItems indent false items

/-- The entries of a mapping at column `indent`; the first may stand on an open line. -/
def writeEntries (indent : Nat) (fresh : Bool) : List (String × Layout) → List Char
  | [] => []
  | (key, value) :: rest =>
    (if fresh then spaces indent else []) ++
      (if isSimpleKey key then
        (Form.of key).write indent key ++ ':' :: writeValue indent value
      else
        '?' :: ' ' :: writeText (indent + 2) key ++
          spaces indent ++ ':' :: ' ' :: writeBeside (indent + 2) value) ++
      writeEntries indent true rest

/-- The items of a list at column `indent`. -/
def writeItems (indent : Nat) (fresh : Bool) : List Layout → List Char
  | [] => []
  | item :: rest =>
    (if fresh then spaces indent else []) ++ '-' :: ' ' :: writeBeside (indent + 2) item ++
      writeItems indent true rest

end

/-- The text of a document. -/
def print (layout : Layout) : String :=
  String.ofList (writeBeside 0 layout)

end DeploymentBackup.Yaml
