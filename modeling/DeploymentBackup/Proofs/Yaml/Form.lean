import DeploymentBackup.Proofs.Yaml.DoubleQuoted
import DeploymentBackup.Proofs.Yaml.LiteralScalar
import DeploymentBackup.Proofs.Yaml.PlainScalar
import DeploymentBackup.Proofs.Yaml.SingleQuoted

namespace DeploymentBackup.Yaml

/-!
# The style of a text

The style is chosen so that the text reads back: each style that is chosen gives what its
reader relies on. A key that stands before its colon is short even when all of it has to be
escaped, so its colon is never too far away.

* `Form.of_plain`, `Form.of_single`, `Form.of_literal` — what the choice of a style says about
  the text.
* `isPrintable_write` — a text is written with printable characters.
* `write_simpleKey` — a short key is written on one line of at most 1024 characters.
-/

/-- The style of the scalar that a written text reads as. -/
def Form.style : Form → Style
  | .plain => .plain
  | .single => .single
  | .double => .double
  | .literal => .literal

/-! ### The chosen style -/

variable {text : String}

theorem Form.of_eq (text : String) :
    Form.of text =
      if text.toList.contains '\n' then
        if (Traits.of text.toList).literal then .literal else .double
      else if (Traits.of text.toList).plain && !needsQuotes text then .plain
      else if (Traits.of text.toList).single then .single
      else .double :=
  rfl

theorem Form.of_literal (h : Form.of text = .literal) : LiteralText text.toList := by
  have htraits : (Traits.of text.toList).literal = true := by
    rw [Form.of_eq] at h
    split_ifs at h with _ hliteral
    exact hliteral
  simp only [Traits.of, Bool.and_eq_true, Bool.not_eq_true', Bool.not_eq_false',
    List.all_eq_true, decide_eq_true_eq] at htraits
  exact ⟨htraits.2, htraits.1.1.1, htraits.1.1.2, htraits.1.2⟩

theorem Form.noLineFeed (h : Form.of text ≠ .literal) (h' : Form.of text ≠ .double) :
    '\n' ∉ text.toList := by
  intro hfeed
  have hcontains : text.toList.contains '\n' = true := List.contains_iff_mem.mpr hfeed
  by_cases hliteral : (Traits.of text.toList).literal = true
  · exact h (by rw [Form.of, if_pos hcontains, if_pos hliteral])
  · exact h' (by rw [Form.of, if_pos hcontains, if_neg hliteral])

theorem Form.of_single (h : Form.of text = .single) : SingleText text.toList := by
  have htraits : (Traits.of text.toList).single = true := by
    rw [Form.of_eq] at h
    split_ifs at h with _ _ _ hsingle
    exact hsingle
  have hfeed := Form.noLineFeed (by rw [h]; decide) (by rw [h]; decide)
  simp only [Traits.of, Bool.and_eq_true, Bool.not_eq_true', Bool.not_eq_false',
    List.all_eq_true] at htraits
  exact ⟨htraits.1.1, hfeed, htraits.1.2, htraits.2⟩

/-- A text is plain only where it does not read as something else. -/
theorem Form.of_plain (h : Form.of text = .plain) :
    PlainText text.toList ∧ hasIndicatorAtStart text.toList = false ∧
      needsQuotes text = false := by
  have htraits : (Traits.of text.toList).plain = true ∧ needsQuotes text = false := by
    rw [Form.of_eq] at h
    split_ifs at h with _ _ hplain
    simpa using hplain
  obtain ⟨htraits, hquotes⟩ := htraits
  simp only [Traits.of, Bool.and_eq_true, Bool.not_eq_true', Bool.not_eq_false',
    Bool.or_eq_false_iff, List.all_eq_true, List.any_eq_false] at htraits
  obtain ⟨⟨⟨⟨hprintable, hbreak⟩, hfirst, hlast⟩, hstart⟩, hinside⟩ := htraits
  refine ⟨⟨?_, hprintable, ?_, ?_, ?_, colonSafe_of_indicators hstart hinside,
    hashSafe_of_inside hinside⟩, hstart, hquotes⟩
  · intro hnil
    have htext : text = "" := String.toList_eq_nil_iff.mp hnil
    rw [htext] at hquotes
    exact absurd hquotes (by decide)
  · intro c hc
    simpa using hbreak c hc
  · intro hspace
    simp [hspace] at hfirst
  · intro hspace
    simp [hspace] at hlast

/-- Without line breaks, the indentation of further lines does not matter. -/
theorem singleChars_of_noBreak {cs : List Char} (h : NoBreak cs) (indent indent' : Nat) :
    singleChars indent false cs = singleChars indent' false cs := by
  induction cs with
  | nil => rfl
  | cons c cs ih =>
    have hc : ¬ isBreak c = true := by simp [h c List.mem_cons_self]
    rw [singleChars, singleChars, if_neg hc, if_neg hc,
      ih fun d hd => h d (List.mem_cons_of_mem _ hd)]
    rfl

/-! ### The first character -/

theorem isMark_eq_true {finish : Bool} {cs : List Char} (h : isMark finish cs = true) :
    cs.take 3 = ['-', '-', '-'] ∨ cs.take 3 = ['.', '.', '.'] := by
  unfold isMark at h
  split at h <;> simp_all

/-- A text that may be plain does not read as a mark, unless it is continued as one. -/
theorem isMark_append {cs more : List Char} (hne : cs ≠ [])
    (hstart : hasIndicatorAtStart cs = false)
    (hmore : ∀ c, more.head? = some c → c ≠ '-' ∧ c ≠ '.') :
    isMark true (cs ++ more) = false := by
  rw [← Bool.not_eq_true]
  intro hmark
  -- A mark has three characters, so what follows counts only behind a shorter text.
  match cs, hne with
  | [a], _ =>
    cases more with
    | nil => rcases isMark_eq_true hmark with h | h <;> simp at h
    | cons c more =>
      have hc := hmore c rfl
      rcases isMark_eq_true hmark with h | h <;> simp_all
  | [a, b], _ =>
    cases more with
    | nil => rcases isMark_eq_true hmark with h | h <;> simp at h
    | cons c more =>
      have hc := hmore c rfl
      rcases isMark_eq_true hmark with h | h <;> simp_all
  | a :: b :: c :: ds, _ =>
    rcases isMark_eq_true hmark with h | h
    · have habc : a = '-' ∧ b = '-' ∧ c = '-' := by simpa using h
      obtain ⟨rfl, rfl, rfl⟩ := habc
      simp [hasIndicatorAtStart] at hstart
    · have habc : a = '.' ∧ b = '.' ∧ c = '.' := by simpa using h
      obtain ⟨rfl, rfl, rfl⟩ := habc
      simp [hasIndicatorAtStart] at hstart

theorem indicators_of_start {c : Char} {cs : List Char}
    (h : hasIndicatorAtStart (c :: cs) = false) :
    isLeadIndicator c = false ∧ ((c = '-' ∨ c = '?' ∨ c = ':') → atGap cs = false) := by
  unfold hasIndicatorAtStart at h
  split at h
  · simp at h
  · simp at h
  · rename_i hcons
    obtain ⟨rfl, rfl⟩ := List.cons.inj hcons
    simpa [or_assoc] using h
  · rename_i hcons
    simp at hcons

theorem Form.exists_front (h : Form.of text = .plain) :
    ∃ c cs, text.toList = c :: cs ∧ isGap c = false ∧ isLeadIndicator c = false ∧
      ((c = '-' ∨ c = '?' ∨ c = ':') → atGap cs = false) := by
  obtain ⟨hplain, hstart, -⟩ := Form.of_plain h
  obtain ⟨c, cs, hcs⟩ := List.exists_cons_of_ne_nil hplain.ne_nil
  have hmem : c ∈ text.toList := by
    rw [hcs]
    exact List.mem_cons_self
  have hgap : isGap c = false :=
    isGap_of_isPrintable (hplain.printable c hmem) (hplain.noBreak c hmem)
      (by simpa [hcs] using hplain.first)
  obtain ⟨hlead, hinner⟩ := indicators_of_start (hcs ▸ hstart)
  exact ⟨c, cs, hcs, hgap, hlead, hinner⟩

theorem write_ne_nil (text : String) (indent : Nat) : (Form.of text).write indent text ≠ [] := by
  cases hchosen : Form.of text with
  | plain => exact (Form.of_plain hchosen).1.ne_nil
  | single => simp [Form.write]
  | double => simp [Form.write]
  | literal => simp [Form.write, literalHeader]

theorem writeText_literal (indent : Nat) (hform : Form.of text = .literal) :
    writeText indent text = '|' :: (headerLine text.toList ++ '\n' ::
      (literalChars indent true text.toList ++ missingBreak text.toList)) := by
  have hne := (Form.of_literal hform).ne_nil
  have hwritten : Form.write .literal indent text = '|' :: (headerLine text.toList ++ '\n' ::
      literalChars indent true text.toList) := by
    rw [Form.write, literalHeader_eq]
    rfl
  by_cases hlast : text.toList.getLast?.any isBreak = true
  · have hmissing : missingBreak text.toList = [] := if_pos (.inr hlast)
    simp only [writeText, hform, hlast, hwritten, hmissing, decide_true, Bool.and_self, if_true,
      List.append_nil]
  · have hmissing : missingBreak text.toList = ['\n'] := if_neg (not_or.mpr ⟨hne, hlast⟩)
    simp [writeText, hform, hlast, hwritten, hmissing]

/-! ### The characters of a written text -/

theorem mem_singleChars {cs : List Char} {indent : Nat} {broken : Bool} {d : Char}
    (hd : d ∈ singleChars indent broken cs) : d = '\'' ∨ d = ' ' ∨ d ∈ cs := by
  have hspaces : ∀ {broken : Bool}, d ∈ (if broken then spaces indent else []) → d = ' ' := by
    intro broken h
    split at h
    · exact mem_spaces h
    · simp at h
  induction cs generalizing broken with
  | nil => exact .inr (.inl (hspaces hd))
  | cons c cs ih =>
    have hrest : ∀ {broken : Bool}, d ∈ singleChars indent broken cs →
        d = '\'' ∨ d = ' ' ∨ d ∈ c :: cs := by
      intro broken h
      rcases ih h with h | h | h
      · exact .inl h
      · exact .inr (.inl h)
      · exact .inr (.inr (List.mem_cons_of_mem _ h))
    rw [singleChars] at hd
    split at hd
    · rcases List.mem_cons.mp hd with rfl | hd
      · exact .inr (.inr List.mem_cons_self)
      · exact hrest hd
    · rw [List.mem_append, List.mem_append] at hd
      rcases hd with (hd | hd) | hd
      · exact .inr (.inl (hspaces hd))
      · split at hd
        · exact .inl (by simpa using hd)
        · exact .inr (.inr (by simp_all))
      · exact hrest hd

theorem isAllowed_of_isPrintable {c : Char} (h : isPrintable c = true) : isAllowed c = true := by
  simp only [isPrintable, isAllowed, Bool.or_eq_true, Bool.and_eq_true, decide_eq_true_eq] at h ⊢
  omega

theorem mem_literalChars {cs : List Char} {indent : Nat} {broken : Bool} {d : Char}
    (hd : d ∈ literalChars indent broken cs) : d = ' ' ∨ d ∈ cs := by
  induction cs generalizing broken with
  | nil => simp [literalChars] at hd
  | cons c cs ih =>
    have hrest : ∀ {broken : Bool}, d ∈ literalChars indent broken cs → d = ' ' ∨ d ∈ c :: cs := by
      intro broken h
      exact (ih h).imp_right (List.mem_cons_of_mem _)
    rw [literalChars] at hd
    split at hd
    · rcases List.mem_cons.mp hd with rfl | hd
      · exact .inr List.mem_cons_self
      · exact hrest hd
    · rw [List.mem_append, List.mem_cons] at hd
      rcases hd with hd | rfl | hd
      · split at hd
        · exact .inl (mem_spaces hd)
        · simp at hd
      · exact .inr List.mem_cons_self
      · exact hrest hd

/-- The header of a literal block is printable. -/
theorem isPrintable_literalHeader {cs : List Char} {d : Char} (hd : d ∈ literalHeader cs) :
    isPrintable d = true := by
  rw [literalHeader_eq, List.mem_cons] at hd
  rcases hd with rfl | hd
  · decide
  · rcases mem_headerLine hd with rfl | rfl | rfl <;> decide

theorem isPrintable_write {text : String} {indent : Nat} :
    ∀ d ∈ (Form.of text).write indent text, isPrintable d = true := by
  intro d hd
  cases hchosen : Form.of text with
  | plain =>
    rw [hchosen] at hd
    exact (Form.of_plain hchosen).1.printable d hd
  | single =>
    rw [hchosen, Form.write, List.cons_append, List.mem_cons, List.mem_append,
      List.mem_singleton] at hd
    rcases hd with rfl | hd | rfl
    · decide
    · rcases mem_singleChars hd with rfl | rfl | hd
      · decide
      · decide
      · exact (Form.of_single hchosen).printable d hd
    · decide
  | double =>
    rw [hchosen, Form.write, List.cons_append, List.mem_cons, List.mem_append,
      List.mem_singleton, List.mem_flatMap] at hd
    rcases hd with rfl | ⟨c, -, hd⟩ | rfl
    · decide
    · exact (mem_doubleChar hd).1
    · decide
  | literal =>
    rw [hchosen, Form.write, List.mem_append, List.mem_cons] at hd
    rcases hd with hd | rfl | hd
    · exact isPrintable_literalHeader hd
    · decide
    · rcases mem_literalChars hd with rfl | hd
      · decide
      · exact (Form.of_literal hchosen).printable d hd

/-! ### The length of a key -/

theorem utf8ByteSize_ofList_cons (c : Char) (cs : List Char) :
    (String.ofList (c :: cs)).utf8ByteSize = c.utf8Size + (String.ofList cs).utf8ByteSize := by
  have hcons : String.ofList (c :: cs) = String.singleton c ++ String.ofList cs := by
    apply String.ext
    simp
  rw [hcons, String.utf8ByteSize_append, String.utf8ByteSize_singleton]

theorem length_upperHex (width n : Nat) : (upperHex width n).length = width := by
  induction width generalizing n with
  | zero => rfl
  | succ width ih => rw [upperHex, List.length_append, ih, List.length_singleton]

/-- Written between quotes, a character takes at most four times its bytes. -/
theorem length_doubleChar_le (c : Char) : (doubleChar c).length ≤ 4 * c.utf8Size := by
  have hpos := c.utf8Size_pos
  have htwo : ¬ c.toNat ≤ 0xFF → 2 ≤ c.utf8Size := by
    intro h
    have hone : c.utf8Size ≠ 1 := by
      rw [ne_eq, Char.utf8Size_eq_one_iff]
      intro hle
      have : c.toNat ≤ 127 := hle
      omega
    omega
  have hthree : ¬ c.toNat ≤ 0xFFFF → 3 ≤ c.utf8Size := by
    intro h
    have htwo' : c.utf8Size ≠ 2 := by
      rw [ne_eq, Char.utf8Size_eq_two_iff]
      intro hle
      have : c.toNat ≤ 0x7ff := hle.2
      omega
    have := htwo (by omega)
    omega
  -- An escape has four, six or ten characters, for a character of at least one, two or three bytes.
  unfold doubleChar
  split
  · unfold escapeOf
    split
    case h_16 =>
      split_ifs with h h'
      · simp only [List.length_cons, length_upperHex]
        omega
      · have := htwo h
        simp only [List.length_cons, length_upperHex]
        omega
      · have := hthree h'
        simp only [List.length_cons, length_upperHex]
        omega
    all_goals
      simp only [List.length_cons, List.length_nil]
      omega
  · rw [List.length_singleton]
    omega

theorem length_flatMap_doubleChar_le (cs : List Char) :
    (cs.flatMap doubleChar).length ≤ 4 * (String.ofList cs).utf8ByteSize := by
  induction cs with
  | nil => exact Nat.zero_le _
  | cons c cs ih =>
    have hc := length_doubleChar_le c
    rw [List.flatMap_cons, List.length_append, utf8ByteSize_ofList_cons]
    omega

theorem length_singleChars_le {cs : List Char} (h : NoBreak cs) (indent : Nat) :
    (singleChars indent false cs).length ≤ 4 * (String.ofList cs).utf8ByteSize := by
  induction cs with
  | nil => exact Nat.zero_le _
  | cons c cs ih =>
    have hc := c.utf8Size_pos
    have hbreak : ¬ isBreak c = true := by simp [h c List.mem_cons_self]
    have hrest := ih fun d hd => h d (List.mem_cons_of_mem _ hd)
    have hchar : (if c = '\'' then ['\'', '\''] else [c]).length ≤ 2 := by
      split <;> simp
    rw [singleChars, if_neg hbreak, utf8ByteSize_ofList_cons, List.length_append,
      List.length_append, if_neg (by decide), List.length_nil]
    omega

theorem length_le_utf8ByteSize (cs : List Char) :
    cs.length ≤ (String.ofList cs).utf8ByteSize := by
  induction cs with
  | nil => exact Nat.zero_le _
  | cons c cs ih =>
    have hc := c.utf8Size_pos
    rw [List.length_cons, utf8ByteSize_ofList_cons]
    omega

/-- A key before its colon is written on one line, and is short. -/
theorem write_simpleKey {key : String} (hsimple : isSimpleKey key = true) (indent : Nat) :
    Form.of key ≠ .literal ∧ NoBreak key.toList ∧ NoBreak ((Form.of key).write indent key) ∧
      ((Form.of key).write indent key).length ≤ 1024 := by
  have hsize : (String.ofList key.toList).utf8ByteSize ≤ 128 := by
    simp only [isSimpleKey, Bool.and_eq_true, decide_eq_true_eq] at hsimple
    rw [String.ofList_toList]
    exact hsimple.1
  have hline : NoBreak key.toList := by
    intro c hc
    simp only [isSimpleKey, Bool.and_eq_true, Bool.not_eq_true', List.any_eq_false] at hsimple
    simpa using hsimple.2 c hc
  -- Only a text with a line feed is written as a literal.
  have hliteral : Form.of key ≠ .literal := by
    have hfeed : key.toList.contains '\n' = false := by
      rw [List.contains_eq_mem, decide_eq_false_iff_not]
      exact fun hmem => absurd (hline _ hmem) (by decide)
    rw [Form.of_eq, hfeed]
    simp only [Bool.false_eq_true, if_false]
    split_ifs <;> decide
  refine ⟨hliteral, hline, ?_⟩
  cases hchosen : Form.of key with
  | plain =>
    have hlen := length_le_utf8ByteSize key.toList
    exact ⟨hline, by rw [Form.write]; omega⟩
  | single =>
    have hlen := length_singleChars_le hline indent
    constructor
    · intro d hd
      rw [Form.write, List.cons_append, List.mem_cons, List.mem_append, List.mem_singleton] at hd
      rcases hd with rfl | hd | rfl
      · decide
      · rcases mem_singleChars hd with rfl | rfl | hd
        · decide
        · decide
        · exact hline d hd
      · decide
    · rw [Form.write, List.cons_append, List.length_cons, List.length_append,
        List.length_singleton]
      omega
  | double =>
    have hlen := length_flatMap_doubleChar_le key.toList
    constructor
    · intro d hd
      rw [Form.write, List.cons_append, List.mem_cons, List.mem_append, List.mem_singleton,
        List.mem_flatMap] at hd
      rcases hd with rfl | ⟨c, -, hd⟩ | rfl
      · decide
      · exact (mem_doubleChar hd).2
      · decide
    · rw [Form.write, List.cons_append, List.length_cons, List.length_append,
        List.length_singleton]
      omega
  | literal => exact absurd hchosen hliteral

end DeploymentBackup.Yaml
