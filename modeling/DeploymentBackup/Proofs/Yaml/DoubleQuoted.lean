import DeploymentBackup.Proofs.Yaml.Gap
import DeploymentBackup.Yaml.Scalar.Quoted

namespace DeploymentBackup.Yaml

/-!
# Texts between double quotes

Any text at all can be written between double quotes: what is not printable becomes an
escape, a line break included, so the text stays on one line.

* `escape?_escapeOf` — an escape stands for the character it was made from.
* `doubleBody?_flatMap` — the closing quote is found.
* `doubleText_flatMap` — the text is read back.
-/

/-! ### Escapes -/

theorem hexValue?_upperHexDigit (n : Nat) :
    Text.hexValue? (Text.hexDigit n).toUpper = some (n % 16) := by
  have hall : ∀ k < 16, Text.hexValue? (Nat.digitChar k).toUpper = some k := by decide
  exact hall (n % 16) (Nat.mod_lt n (by decide))

/-- Digits are read in the order in which they are written, the highest first. -/
theorem hexNumber?_upperHex (width more value n : Nat) (rest : List Char) :
    hexNumber? (width + more) value (upperHex width n ++ rest) =
      hexNumber? more (value * Nat.pow 16 width + n % Nat.pow 16 width) rest := by
  induction width generalizing more n rest with
  | zero => simp [upperHex, Nat.mod_one, Nat.pow]
  | succ width ih =>
    have hmod : n % (Nat.pow 16 width * 16) = n % 16 + 16 * (n / 16 % Nat.pow 16 width) := by
      rw [Nat.mul_comm, Nat.mod_mul]
    rw [upperHex, List.append_assoc, List.singleton_append,
      show width + 1 + more = width + (more + 1) by omega, ih, hexNumber?,
      hexValue?_upperHexDigit]
    show hexNumber? more ((value * Nat.pow 16 width + n / 16 % Nat.pow 16 width) * 16 + n % 16) rest
      = hexNumber? more (value * (Nat.pow 16 width * 16) + n % (Nat.pow 16 width * 16)) rest
    rw [hmod, Nat.add_mul, Nat.mul_assoc]
    congr 1
    omega

/-- A numeric escape of enough digits stands for its character. -/
theorem escape?_upperHex {letter : Char} {width : Nat} {c : Char} (rest : List Char)
    (hletter : escapedChar? letter = none) (hwidth : escapeWidth? letter = some width)
    (hc : c.toNat < Nat.pow 16 width) :
    escape? (letter :: upperHex width c.toNat ++ rest) = some (c, rest) := by
  have hvalid : c.toNat.isValidChar := c.valid
  have hread := hexNumber?_upperHex width 0 0 c.toNat rest
  rw [Nat.zero_mul, Nat.zero_add, Nat.mod_eq_of_lt hc, Nat.add_zero, hexNumber?] at hread
  rw [List.cons_append, escape?]
  simp only [hletter, hwidth, hread, hvalid, if_true, Char.ofNat_toNat]

/-- The characters behind the backslash of an escape: neither of them is special. -/
def IsEscapeTail (e : List Char) : Prop :=
  ∃ letter digits, e = letter :: digits ∧ isBreak letter = false ∧
    ∀ d ∈ digits, d ≠ '"' ∧ d ≠ '\\'

theorem isEscapeTail_letter {letter : Char} (h : isBreak letter = false) :
    IsEscapeTail [letter] :=
  ⟨letter, [], rfl, h, by simp⟩

theorem mem_upperHex {width n : Nat} {d : Char} (h : d ∈ upperHex width n) :
    d ≠ '"' ∧ d ≠ '\\' ∧ isPrintable d = true ∧ isBreak d = false := by
  have hall : ∀ k < 16, (Nat.digitChar k).toUpper ≠ '"' ∧ (Nat.digitChar k).toUpper ≠ '\\' ∧
      isPrintable (Nat.digitChar k).toUpper = true ∧
      isBreak (Nat.digitChar k).toUpper = false := by
    decide
  induction width generalizing n with
  | zero => simp [upperHex] at h
  | succ width ih =>
    rw [upperHex, List.mem_append, List.mem_singleton] at h
    rcases h with h | rfl
    · exact ih h
    · exact hall (n % 16) (Nat.mod_lt n (by decide))

theorem isEscapeTail_upperHex {letter : Char} (width n : Nat) (h : isBreak letter = false) :
    IsEscapeTail (letter :: upperHex width n) :=
  ⟨letter, upperHex width n, rfl, h, fun _ hd => ⟨(mem_upperHex hd).1, (mem_upperHex hd).2.1⟩⟩

/-- An escape stands for the character it was made from. -/
theorem escape?_escapeOf (c : Char) :
    ∃ e, escapeOf c = '\\' :: e ∧ IsEscapeTail e ∧
      ∀ rest, escape? (e ++ rest) = some (c, rest) := by
  have hlt : c.toNat < 0x110000 := by
    have hvalid : c.val.toNat < 0xD800 ∨ (0xDFFF < c.val.toNat ∧ c.val.toNat < 0x110000) := c.valid
    show c.val.toNat < 0x110000
    omega
  unfold escapeOf
  split
  case h_16 =>
    split
    · exact ⟨_, rfl, isEscapeTail_upperHex _ _ (by decide), fun rest =>
        escape?_upperHex rest (by decide) (by decide) (show c.toNat < 256 by omega)⟩
    split
    · exact ⟨_, rfl, isEscapeTail_upperHex _ _ (by decide), fun rest =>
        escape?_upperHex rest (by decide) (by decide) (show c.toNat < 65536 by omega)⟩
    · exact ⟨_, rfl, isEscapeTail_upperHex _ _ (by decide), fun rest =>
        escape?_upperHex rest (by decide) (by decide) (show c.toNat < 4294967296 by omega)⟩
  all_goals exact ⟨_, rfl, isEscapeTail_letter (by decide), fun _ => rfl⟩

/-- Whatever a character is, between double quotes it is written on one line, with
    characters that stand for themselves. -/
theorem mem_doubleChar {c d : Char} (h : d ∈ doubleChar c) :
    isPrintable d = true ∧ isBreak d = false := by
  unfold doubleChar at h
  split at h
  · unfold escapeOf at h
    split at h
    case h_16 =>
      split_ifs at h <;>
      · simp only [List.mem_cons] at h
        rcases h with rfl | rfl | h
        · decide
        · decide
        · exact (mem_upperHex h).2.2
    all_goals
      simp only [List.mem_cons, List.not_mem_nil, or_false] at h
      rcases h with rfl | rfl <;> decide
  · rw [List.mem_singleton] at h
    simp_all

/-- A character between double quotes is itself, on a line with others, or an escape. -/
theorem doubleChar_cases (c : Char) :
    (doubleChar c = [c] ∧ isPrintable c = true ∧ isBreak c = false ∧ c ≠ '"' ∧ c ≠ '\\') ∨
      ∃ e, doubleChar c = '\\' :: e ∧ IsEscapeTail e ∧
        ∀ rest, escape? (e ++ rest) = some (c, rest) := by
  unfold doubleChar
  split
  · exact .inr (escape?_escapeOf c)
  · rename_i h
    simp only [Bool.or_eq_true, Bool.not_eq_true', decide_eq_true_eq, not_or,
      Bool.not_eq_false, Bool.not_eq_true] at h
    exact .inl ⟨rfl, h.1.1.1, h.1.1.2, h.1.2, h.2⟩

/-! ### The closing quote -/

theorem doubleBody?_word {c : Char} {rest : List Char} (hq : c ≠ '"') (hb : c ≠ '\\') :
    doubleBody? (c :: rest) = (doubleBody? rest).map fun (body, rest) => (c :: body, rest) := by
  rw [doubleBody?]
  · rintro d ds rfl
    exact absurd rfl hb
  · rintro rfl
    exact absurd rfl hq

theorem doubleBody?_words {ds rest : List Char} (h : ∀ d ∈ ds, d ≠ '"' ∧ d ≠ '\\') :
    doubleBody? (ds ++ rest) = (doubleBody? rest).map fun (body, rest) => (ds ++ body, rest) := by
  induction ds with
  | nil => simp
  | cons d ds ih =>
    obtain ⟨hq, hb⟩ := h d List.mem_cons_self
    rw [List.cons_append, doubleBody?_word hq hb, ih fun e he => h e (List.mem_cons_of_mem _ he),
      Option.map_map]
    rfl

/-- The part up to the closing quote is what was written. -/
theorem doubleBody?_flatMap (cs rest : List Char) :
    doubleBody? (cs.flatMap doubleChar ++ '"' :: rest) = some (cs.flatMap doubleChar, rest) := by
  induction cs with
  | nil => rfl
  | cons c cs ih =>
    rw [List.flatMap_cons]
    rcases doubleChar_cases c with ⟨hc, -, -, hq, hb⟩ |
      ⟨e, hc, ⟨letter, digits, rfl, -, hdigits⟩, -⟩
    · rw [hc, List.singleton_append, List.cons_append, doubleBody?_word hq hb, ih]
      rfl
    · rw [hc, List.cons_append, List.cons_append, List.cons_append, List.cons_append, doubleBody?,
        List.append_assoc, doubleBody?_words hdigits, ih]
      rfl

/-! ### The text -/

theorem doubleText_escape {rest after : List Char} {c : Char} (hbreak : lineBreak? rest = none)
    (hescape : escape? rest = some (c, after)) :
    doubleText ('\\' :: rest) = (doubleText after).map (c :: ·) := by
  rw [doubleText]
  split
  · rename_i h
    rw [hbreak] at h
    simp at h
  · split
    · rename_i h
      rw [hescape] at h
      obtain ⟨rfl, rfl⟩ := Prod.mk.inj (Option.some.inj h)
      rfl
    · rename_i h
      rw [hescape] at h
      simp at h

theorem doubleText_word {c : Char} {rest : List Char} (hb : c ≠ '\\') (hgap : isGap c = false) :
    doubleText (c :: rest) = (doubleText rest).map (c :: ·) := by
  rw [doubleText]
  · simp [hgap]
  · rintro rfl
    exact absurd rfl hb

/-- A run of spaces reads as itself. -/
theorem doubleText_spaces {n : Nat} {next : List Char} (hn : n ≠ 0) (hnext : NoGapAhead next) :
    doubleText (spaces n ++ next) = (doubleText next).map (spaces n ++ ·) := by
  obtain ⟨n, rfl⟩ := Nat.exists_eq_succ_of_ne_zero hn
  have hspaces : spaces (n + 1) = ' ' :: spaces n := rfl
  rw [hspaces, List.cons_append, doubleText]
  · simp only [isGap_space, if_true, takeWhile_gap (isGap_spaces n) hnext,
      dropWhile_gap (isGap_spaces n) hnext]
    rw [← hspaces, lastLine_of_noBreak (noBreak_spaces _), foldGap_of_noBreak (noBreak_spaces _),
      hspaces]
    simp
  · simp

theorem lineBreak?_of_not {c : Char} {cs : List Char} (h : isBreak c = false) :
    lineBreak? (c :: cs) = none := by
  have hc : c ≠ '\u2028' ∧ c ≠ '\u2029' ∧ c ≠ '\r' := by
    refine ⟨?_, ?_, ?_⟩ <;> rintro rfl <;> exact absurd h (by decide)
  rw [lineBreak?]
  · simp [h, hc]
  · rintro rest rfl
    exact absurd rfl hc.2.2

/-- A printable character is a gap only as a space or as a line break. -/
theorem isGap_of_isPrintable {c : Char} (hc : isPrintable c = true) (hbreak : isBreak c = false)
    (hspace : c ≠ ' ') : isGap c = false := by
  have htab : c ≠ '\t' := by
    rintro rfl
    exact absurd hc (by decide)
  simp [isGap, isSpace, hbreak, hspace, htab]

theorem noGapAhead_flatMap {cs : List Char} (h : cs.head? ≠ some ' ') :
    NoGapAhead (cs.flatMap doubleChar) := by
  cases cs with
  | nil => exact noGapAhead_nil
  | cons c cs =>
    rw [List.flatMap_cons]
    rcases doubleChar_cases c with ⟨hc, hprint, hbreak, -, -⟩ | ⟨e, hc, -, -⟩
    · rw [hc, List.singleton_append, noGapAhead_cons]
      exact isGap_of_isPrintable hprint hbreak (by simpa using h)
    · rw [hc, List.cons_append, noGapAhead_cons]
      decide

theorem flatMap_spaces (n : Nat) : (spaces n).flatMap doubleChar = spaces n := by
  induction n with
  | zero => rfl
  | succ n ih =>
    rw [show spaces (n + 1) = ' ' :: spaces n from rfl, List.flatMap_cons, ih]
    rfl

/-- The spaces at the front of a text, and the text behind them. -/
theorem exists_spaces (cs : List Char) :
    ∃ n rest, cs = spaces n ++ rest ∧ rest.head? ≠ some ' ' := by
  induction cs with
  | nil => exact ⟨0, [], rfl, by simp⟩
  | cons c cs ih =>
    by_cases hc : c = ' '
    · obtain ⟨n, rest, rfl, hrest⟩ := ih
      exact ⟨n + 1, rest, by rw [hc]; rfl, hrest⟩
    · exact ⟨0, c :: cs, rfl, by simpa using hc⟩

/-- A text between double quotes is read back. -/
theorem doubleText_flatMap (cs : List Char) : doubleText (cs.flatMap doubleChar) = .ok cs := by
  induction hlen : cs.length using Nat.strong_induction_on generalizing cs with
  | h len ih =>
    obtain ⟨n, rest, rfl, hrest⟩ := exists_spaces cs
    -- Behind the spaces, one character is read at a time, as it is or as an escape.
    have hword : doubleText (rest.flatMap doubleChar) = .ok rest := by
      cases rest with
      | nil => rw [List.flatMap_nil, doubleText]
      | cons c rest =>
        have htail : doubleText (rest.flatMap doubleChar) = .ok rest := by
          refine ih rest.length ?_ rest rfl
          simp only [List.length_append, List.length_cons] at hlen
          omega
        rw [List.flatMap_cons]
        rcases doubleChar_cases c with ⟨hc, hprint, hbreak, -, hb⟩ | ⟨e, hc, hletter, hescape⟩
        · have hgap : isGap c = false := isGap_of_isPrintable hprint hbreak (by simpa using hrest)
          rw [hc, List.singleton_append, doubleText_word hb hgap, htail]
          rfl
        · obtain ⟨letter, digits, rfl, hletter, -⟩ := hletter
          have hread : doubleText ('\\' :: (letter :: digits ++ rest.flatMap doubleChar)) =
              (doubleText (rest.flatMap doubleChar)).map (c :: ·) :=
            doubleText_escape (lineBreak?_of_not hletter) (hescape _)
          rw [hc, List.cons_append, hread, htail]
          rfl
    rw [List.flatMap_append, flatMap_spaces]
    by_cases hn : n = 0
    · subst hn
      exact hword
    · rw [doubleText_spaces hn (noGapAhead_flatMap hrest), hword]
      rfl

end DeploymentBackup.Yaml
