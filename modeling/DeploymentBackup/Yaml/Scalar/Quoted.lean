import DeploymentBackup.Text.Hex
import DeploymentBackup.Yaml.Character
import DeploymentBackup.Yaml.Token

namespace DeploymentBackup.Yaml

/-!
# Quoted scalars

A quoted scalar may run over several lines, which fold into one: the blanks around a line
break are dropped and a single break reads as a space. Between single quotes only the quote
itself is written specially, as two of them; between double quotes a backslash starts an
escape.

* `singleBody?`, `doubleBody?` — the part up to the closing quote, as it is written.
* `singleText`, `doubleText` — what such a part reads as.
-/

/-- The part before the closing single quote, and the text behind that quote. -/
def singleBody? : List Char → Option (List Char × List Char)
  | '\'' :: '\'' :: rest =>
    (singleBody? rest).map fun (body, rest) => ('\'' :: '\'' :: body, rest)
  | '\'' :: rest => some ([], rest)
  | c :: rest => (singleBody? rest).map fun (body, rest) => (c :: body, rest)
  | [] => none

/-- The part before the closing double quote, and the text behind that quote. -/
def doubleBody? : List Char → Option (List Char × List Char)
  | '\\' :: c :: rest =>
    (doubleBody? rest).map fun (body, rest) => ('\\' :: c :: body, rest)
  | '"' :: rest => some ([], rest)
  | c :: rest => (doubleBody? rest).map fun (body, rest) => (c :: body, rest)
  | [] => none

theorem length_dropWhile_le {α : Type} (p : α → Bool) (cs : List α) :
    (cs.dropWhile p).length ≤ cs.length :=
  (List.dropWhile_sublist p).length_le

/-- What the part between single quotes reads as. -/
def singleText : List Char → Except Fault (List Char)
  | [] => .ok []
  | '\'' :: '\'' :: rest => (singleText rest).map ('\'' :: ·)
  | c :: rest =>
    if isGap c then
      let gap := c :: rest.takeWhile isGap
      let next := rest.dropWhile isGap
      if (lastLine gap).isEmpty && isMark false next then .error .markInQuote
      else (singleText next).map (foldGap gap ++ ·)
    else (singleText rest).map (c :: ·)
termination_by cs => cs.length
decreasing_by
  · simp only [List.length_cons]; omega
  · have := length_dropWhile_le isGap rest
    simp only [List.length_cons]; omega
  · simp only [List.length_cons]; omega

/-! ### Escapes -/

/-- The character that a one-letter escape stands for. -/
def escapedChar? : Char → Option Char
  | '0' => some '\x00'
  | 'a' => some '\x07'
  | 'b' => some '\x08'
  | 't' => some '\t'
  | '\t' => some '\t'
  | 'n' => some '\n'
  | 'v' => some '\x0B'
  | 'f' => some '\x0C'
  | 'r' => some '\r'
  | 'e' => some '\x1B'
  | ' ' => some ' '
  | '"' => some '"'
  | '/' => some '/'
  | '\\' => some '\\'
  | 'N' => some '\u0085'
  | '_' => some '\u00A0'
  | 'L' => some '\u2028'
  | 'P' => some '\u2029'
  | _ => none

/-- How many digits follow the letter of a numeric escape. -/
def escapeWidth? : Char → Option Nat
  | 'x' => some 2
  | 'u' => some 4
  | 'U' => some 8
  | _ => none

/-- The value of the first `width` digits, and the text behind them. -/
def hexNumber? : (width value : Nat) → List Char → Option (Nat × List Char)
  | 0, value, rest => some (value, rest)
  | _ + 1, _, [] => none
  | width + 1, value, c :: rest =>
    match Text.hexValue? c with
    | some digit => hexNumber? width (value * 16 + digit) rest
    | none => none

/-- Reads an escape from its letter on. -/
def escape? : List Char → Option (Char × List Char)
  | [] => none
  | c :: rest =>
    match escapedChar? c, escapeWidth? c with
    | some e, _ => some (e, rest)
    | none, none => none
    | none, some width =>
      match hexNumber? width 0 rest with
      | some (value, rest) =>
        if value.isValidChar then some (Char.ofNat value, rest) else none
      | none => none

theorem hexNumber?_length {width value : Nat} {cs rest : List Char} {n : Nat}
    (h : hexNumber? width value cs = some (n, rest)) : rest.length ≤ cs.length := by
  induction width generalizing value cs with
  | zero => simp_all [hexNumber?]
  | succ width ih =>
    cases cs with
    | nil => simp [hexNumber?] at h
    | cons c cs =>
      rw [hexNumber?] at h
      split at h
      · have := ih h
        simp only [List.length_cons]
        omega
      · simp at h

theorem escape?_length {cs rest : List Char} {c : Char} (h : escape? cs = some (c, rest)) :
    rest.length < cs.length := by
  cases cs with
  | nil => simp [escape?] at h
  | cons d cs =>
    rw [escape?] at h
    split at h
    · simp_all
    · simp at h
    · split at h
      · rename_i hexadecimal
        have := hexNumber?_length hexadecimal
        split at h
        · simp only [Option.some.injEq, Prod.mk.injEq] at h
          simp only [List.length_cons, ← h.2]
          omega
        · simp at h
      · simp at h

/-- What the part between double quotes reads as. A line break behind a backslash does not
    read as a space. -/
def doubleText : List Char → Except Fault (List Char)
  | [] => .ok []
  | '\\' :: rest =>
    match _h : lineBreak? rest with
    | some (_, after) =>
      let gap := after.takeWhile isGap
      let next := after.dropWhile isGap
      if (lastLine gap).isEmpty && isMark false next then .error .markInQuote
      else (doubleText next).map (breaksOf gap ++ ·)
    | none =>
      match _h : escape? rest with
      | some (c, rest) => (doubleText rest).map (c :: ·)
      | none => .error .unknownEscape
  | c :: rest =>
    if isGap c then
      let gap := c :: rest.takeWhile isGap
      let next := rest.dropWhile isGap
      if (lastLine gap).isEmpty && isMark false next then .error .markInQuote
      else (doubleText next).map (foldGap gap ++ ·)
    else (doubleText rest).map (c :: ·)
termination_by cs => cs.length
decreasing_by
  · have := lineBreak?_length _h
    have := length_dropWhile_le isGap after
    simp only [List.length_cons]; omega
  · have := escape?_length _h
    simp only [List.length_cons]; omega
  · have := length_dropWhile_le isGap rest
    simp only [List.length_cons]; omega
  · simp only [List.length_cons]; omega

end DeploymentBackup.Yaml
