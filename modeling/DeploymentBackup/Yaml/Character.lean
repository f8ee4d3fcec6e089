namespace DeploymentBackup.Yaml

/-!
# Characters and line breaks

* `isSpace`, `isBreak`, `isGap` — blanks inside a line, line breaks, and both.
* `lineBreak?` — the line break at the front of a text, and what it reads as.
* `Position` — how far a text has been read; `Position.after` moves it over a text.
* `isAllowed` — the characters that a document may hold at all.
-/

/-- A space or a tab. -/
def isSpace (c : Char) : Bool :=
  c = ' ' || c = '\t'

/-- A character that ends a line: return, feed, next line, and the two separators. -/
def isBreak (c : Char) : Bool :=
  c = '\r' || c = '\n' || c = '\u0085' || c = '\u2028' || c = '\u2029'

/-- A character between words. -/
def isGap (c : Char) : Bool :=
  isSpace c || isBreak c

/-- The text is at its end, at a blank or at a line break. -/
def atGap : List Char → Bool
  | [] => true
  | c :: _ => isGap c

/-- The characters of the names of anchors, handles and directives. -/
def isNameChar (c : Char) : Bool :=
  c.isAlphanum || c = '_' || c = '-'

/-- The line break at the front: the character it reads as, and the text behind it. The
    two separators stand for themselves, every other break reads as a line feed. -/
def lineBreak? : List Char → Option (Char × List Char)
  | '\r' :: '\n' :: rest => some ('\n', rest)
  | c :: rest =>
    if c = '\u2028' || c = '\u2029' then some (c, rest)
    else if isBreak c then some ('\n', rest)
    else none
  | [] => none

/-- The characters of the line break at the front. -/
def breakChars : List Char → List Char
  | '\r' :: '\n' :: _ => ['\r', '\n']
  | c :: _ => if isBreak c then [c] else []
  | [] => []

theorem lineBreak?_length {cs rest : List Char} {c : Char} (h : lineBreak? cs = some (c, rest)) :
    rest.length < cs.length := by
  unfold lineBreak? at h
  split at h
  · simp only [Option.some.injEq, Prod.mk.injEq] at h
    simp only [List.length_cons, h.2]
    omega
  · split at h
    · simp_all
    · split at h <;> simp_all
  · simp at h

/-- What the line breaks among blanks read as, in order. -/
def breaksOf : List Char → List Char
  | '\r' :: '\n' :: rest => '\n' :: breaksOf rest
  | c :: rest =>
    if c = '\u2028' || c = '\u2029' then c :: breaksOf rest
    else if isBreak c then '\n' :: breaksOf rest
    else breaksOf rest
  | [] => []

/-- How line breaks between two words read: a single one as a space, more than one without
    the first, and a separator always as itself. -/
def foldBreaks : List Char → List Char
  | ['\n'] => [' ']
  | '\n' :: more => more
  | breaks => breaks

/-- How the blanks and breaks between two words read. -/
def foldGap (gap : List Char) : List Char :=
  match breaksOf gap with
  | [] => gap
  | breaks => foldBreaks breaks

/-- The characters behind the last line break. -/
def lastLine (text : List Char) : List Char :=
  (text.reverse.takeWhile (! isBreak ·)).reverse

/-- A line of three dashes or three dots marks the start or the end of a document. The
    marks end where a blank, a line break or `finish` follows. -/
def isMark (finish : Bool) : List Char → Bool
  | ['-', '-', '-'] => finish
  | ['.', '.', '.'] => finish
  | '-' :: '-' :: '-' :: c :: _ => isGap c
  | '.' :: '.' :: '.' :: c :: _ => isGap c
  | _ => false

/-- How far a text has been read: characters, lines, and characters of this line. -/
structure Position where
  index : Nat
  line : Nat
  column : Nat
deriving DecidableEq, Repr

/-- The position behind a text that is read from `p` on. -/
def Position.after (p : Position) : List Char → Position
  | '\r' :: '\n' :: rest => Position.after ⟨p.index + 2, p.line + 1, 0⟩ rest
  | c :: rest =>
    if isBreak c then Position.after ⟨p.index + 1, p.line + 1, 0⟩ rest
    else Position.after ⟨p.index + 1, p.line, p.column + 1⟩ rest
  | [] => p

/-- The characters that a document may hold: no controls but tab and line ends, no
    surrogates, no noncharacters of the first plane. -/
def isAllowed (c : Char) : Bool :=
  let n := c.toNat
  n = 0x09 || n = 0x0A || n = 0x0D || (0x20 ≤ n && n ≤ 0x7E) || n = 0x85 ||
    (0xA0 ≤ n && n ≤ 0xD7FF) || (0xE000 ≤ n && n ≤ 0xFFFD) || 0x10000 ≤ n

end DeploymentBackup.Yaml
