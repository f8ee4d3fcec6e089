import DeploymentBackup.Proofs.Yaml.Form
import DeploymentBackup.Proofs.Yaml.Reads

namespace DeploymentBackup.Yaml

/-!
# Written texts are read as one token

Whatever style is chosen for a text, it reads as one scalar with this text. As a key it
stands before a colon on its line, as a value before the end of its line.

* `step_line` — a text on a line, before a colon or the end of the line.
* `step_literal` — a text as a literal block.
* `reads_key`, `reads_text` — the token of a key and of a value.
-/

variable {text : String}

theorem tokenAhead_write {indent : Nat} {more : List Char} :
    TokenAhead ((Form.of text).write indent text ++ more) := by
  cases hchosen : Form.of text with
  | plain =>
    obtain ⟨c, cs, hcs, hgap, hlead, -⟩ := Form.exists_front hchosen
    have hcomment : c ≠ '#' := by
      rintro rfl
      exact absurd hlead (by decide)
    rw [Form.write, hcs]
    exact tokenAhead_cons hgap hcomment
  | single => exact tokenAhead_cons (by decide) (by decide)
  | double => exact tokenAhead_cons (by decide) (by decide)
  | literal => exact tokenAhead_cons (by decide) (by decide)

namespace Reading

variable {allowed : Bool} {p : Position} {toks : List Token} {m : Nat} {ms : List Nat}

theorem startsPlain_of_not {c : Char} {rest : List Char} (hgap : isGap c = false)
    (hlead : isLeadIndicator c = false)
    (hinner : (c = '-' ∨ c = '?' ∨ c = ':') → atGap rest = false) :
    startsPlain false c rest = true := by
  by_cases hc : c = '-' ∨ c = '?' ∨ c = ':'
  · have hrest := hinner hc
    have hspace : rest.head?.any isSpace = false := by
      cases rest with
      | nil => rfl
      | cons d ds => exact (Bool.or_eq_false_iff.mp hrest).1
    rcases hc with rfl | rfl | rfl <;> simp [startsPlain, hrest, hspace]
  · have hindicator : isIndicator c = false := by
      simp_all [isLeadIndicator, isIndicator]
    simp [startsPlain, hgap, hindicator]

/-- A character that is no indicator here starts a plain scalar. -/
theorem tokenAt_plain {c : Char} {rest : List Char} (hgap : isGap c = false)
    (hmark : isMark true (c :: rest) = false) (hlead : isLeadIndicator c = false)
    (hinner : (c = '-' ∨ c = '?' ∨ c = ':') → atGap rest = false) :
    (between allowed (c :: rest) p toks m ms).tokenAt c rest =
      (between allowed (c :: rest) p toks m ms).plainScalar := by
  have hplain := startsPlain_of_not hgap hlead hinner
  have hdash : ¬ (c = '-' ∧ atGap rest = true) := by
    rintro ⟨hc, hat⟩
    rw [hinner (.inl hc)] at hat
    cases hat
  have hquestion : ¬ (c = '?' ∧ atGap rest = true) := by
    rintro ⟨hc, hat⟩
    rw [hinner (.inr (.inl hc))] at hat
    cases hat
  have hcolon : ¬ (c = ':' ∧ atGap rest = true) := by
    rintro ⟨hc, hat⟩
    rw [hinner (.inr (.inr hc))] at hat
    cases hat
  have hne : c ∉
      ['#', ',', '[', ']', '{', '}', '&', '*', '!', '|', '>', '\'', '"', '%', '@', '\x60'] := by
    simpa [isLeadIndicator] using hlead
  simp only [List.mem_cons, List.not_mem_nil, or_false, not_or] at hne
  simp [tokenAt, between, flow, hmark, hplain, hdash, hquestion, hcolon, hne]

/-! ### Texts on a line -/

/-- The place that is kept before a scalar, where a key may start. -/
def placeKept (allowed : Bool) (toks : List Token) (p : Position) (m : Nat) :
    Option SimpleKey :=
  if allowed then some ⟨toks.length, p, decide (m = p.column + 1)⟩ else none

/-- A key need not stand behind an indicator. -/
theorem mem_placeKept (hallowed : allowed = true → m ≠ p.column + 1) {key : SimpleKey}
    (hkey : key ∈ placeKept allowed toks p m) : key.position = p ∧ key.required = false := by
  cases allowed with
  | false => simp [placeKept] at hkey
  | true =>
    obtain rfl : ⟨toks.length, p, decide (m = p.column + 1)⟩ = key := by
      simpa [placeKept] using hkey
    exact ⟨rfl, decide_eq_false (hallowed rfl)⟩

theorem keepKey_between {rest : List Char} :
    (between allowed rest p toks m ms).keepKey =
      .ok ⟨rest, p, toks, m, ms, allowed, placeKept allowed toks p m, []⟩ := by
  cases allowed <;> rfl

/-- Right behind a scalar on a line. -/
def behindScalar (allowed : Bool) (style : Style) (text : String) (rest : List Char)
    (p p' : Position) (newLine : Bool) (toks : List Token) (m : Nat) (ms : List Nat) : Reading :=
  ⟨rest, p', .scalar style text :: toks, m, ms, newLine, placeKept allowed toks p m, []⟩

theorem quotedScalar_between {style : Style} {quote : Char} {cs body rest : List Char}
    {body? : List Char → Option (List Char × List Char)}
    {decode : List Char → Except Fault (List Char)}
    (hbody : body? (body ++ quote :: rest) = some (body, rest)) (htext : decode body = .ok cs) :
    (between allowed (quote :: (body ++ quote :: rest)) p toks m ms).quotedScalar
        style body? decode =
      .ok (behindScalar allowed style (String.ofList cs) rest p
        (p.after (quote :: body ++ [quote])) false toks m ms) := by
  have htail : (between allowed (quote :: (body ++ quote :: rest)) p toks m ms).rest.tail =
      body ++ quote :: rest := rfl
  simp only [quotedScalar, keepKey_between, htail, hbody, htext]
  rfl

theorem plainScalar_between {cs gap next : List Char} (h : PlainText cs)
    (hends : PlainContext.Ends ⟨false, m⟩ gap next) :
    (between allowed (cs ++ (gap ++ next)) p toks m ms).plainScalar =
      .ok (behindScalar allowed .plain (String.ofList cs) next p (p.after (cs ++ gap))
        (gap.any isBreak) toks m ms) := by
  have hread : Plain.read ⟨(between allowed (cs ++ (gap ++ next)) p toks m ms).flow,
      (between allowed (cs ++ (gap ++ next)) p toks m ms).margin⟩
      (between allowed (cs ++ (gap ++ next)) p toks m ms).rest =
        .ok ⟨cs, cs ++ gap, gap.any isBreak⟩ := Plain.read_append h hends
  have hdrop : (cs ++ (gap ++ next)).drop (cs ++ gap).length = next := by
    rw [← List.append_assoc, List.drop_left]
  simp only [plainScalar, keepKey_between, hread]
  show Except.ok (behindScalar allowed .plain (String.ofList cs)
    ((cs ++ (gap ++ next)).drop (cs ++ gap).length) p _ _ toks m ms) = _
  rw [hdrop]
  rfl

/-- A text on a line is one token. What stands behind it, a gap and the next token, is taken
    with it or left. -/
theorem step_line {indent : Nat} {gap next : List Char} (hform : Form.of text ≠ .literal)
    (hindent : indent ≠ 0 ∨ NoBreak text.toList)
    (hends : PlainContext.Ends ⟨false, m⟩ gap next) (hm : m ≤ p.column + 1)
    (hnext : ∀ c, (gap ++ next).head? = some c → c ≠ '-' ∧ c ≠ '.' ∧ c ≠ '\'') :
    ∃ front back, (front = [] ∧ back = gap ∨ front = gap ∧ back = []) ∧
      (between allowed ((Form.of text).write indent text ++ (gap ++ next)) p toks m ms).step =
        .ok (.inl (behindScalar allowed (Form.of text).style text (back ++ next) p
          (p.after ((Form.of text).write indent text ++ front)) (front.any isBreak)
          toks m ms)) := by
  cases hchosen : Form.of text with
  | plain =>
    -- A plain scalar takes the gap behind it along; a quoted one leaves it to the next token.
    refine ⟨gap, [], .inr ⟨rfl, rfl⟩, ?_⟩
    obtain ⟨hplain, hstart, -⟩ := Form.of_plain hchosen
    obtain ⟨c, cs, hcs, hgap, hlead, hinner⟩ := Form.exists_front hchosen
    have hmark : isMark true (c :: (cs ++ (gap ++ next))) = false :=
      isMark_append (by simp) (hcs ▸ hstart)
        fun d hd => ⟨(hnext d hd).1, (hnext d hd).2.1⟩
    have hcomment : c ≠ '#' := by
      rintro rfl
      exact absurd hlead (by decide)
    have hrest : Form.write .plain indent text ++ (gap ++ next) =
        c :: (cs ++ (gap ++ next)) := by
      rw [Form.write, hcs]
      rfl
    rw [hrest, step_of_settled (settled_between (tokenAhead_cons hgap hcomment)) rfl hm,
      tokenAt_plain hgap hmark hlead fun h => atGap_append_of_false (hinner h),
      ← List.cons_append, ← hcs, plainScalar_between hplain hends, String.ofList_toList]
    rfl
  | single =>
    refine ⟨[], gap, .inl ⟨rfl, rfl⟩, ?_⟩
    have hsingle := Form.of_single hchosen
    have htext : singleText (singleChars indent false text.toList) = .ok text.toList := by
      rcases hindent with hindent | hline
      · exact singleText_singleChars hindent hsingle
      · rw [singleChars_of_noBreak hline indent 1]
        exact singleText_singleChars (by decide) hsingle
    have hbody := singleBody?_singleChars indent false text.toList
      fun h => (hnext _ h).2.2 rfl
    have hrest : Form.write .single indent text ++ (gap ++ next) =
        '\'' :: (singleChars indent false text.toList ++ '\'' :: (gap ++ next)) := by
      simp [Form.write]
    rw [hrest, step_of_settled (settled_between (tokenAhead_cons (by decide) (by decide))) rfl hm]
    have htoken : ∀ rest, (between allowed ('\'' :: rest) p toks m ms).tokenAt '\'' rest =
        (between allowed ('\'' :: rest) p toks m ms).quotedScalar .single
          singleBody? singleText := by
      intro rest
      simp [tokenAt, isMark]
    rw [htoken, quotedScalar_between hbody htext, String.ofList_toList, List.append_nil]
    rfl
  | double =>
    refine ⟨[], gap, .inl ⟨rfl, rfl⟩, ?_⟩
    have hrest : Form.write .double indent text ++ (gap ++ next) =
        '"' :: (text.toList.flatMap doubleChar ++ '"' :: (gap ++ next)) := by
      simp [Form.write]
    rw [hrest, step_of_settled (settled_between (tokenAhead_cons (by decide) (by decide))) rfl hm]
    have htoken : ∀ rest, (between allowed ('"' :: rest) p toks m ms).tokenAt '"' rest =
        (between allowed ('"' :: rest) p toks m ms).quotedScalar .double
          doubleBody? doubleText := by
      intro rest
      simp [tokenAt, isMark]
    rw [htoken, quotedScalar_between (doubleBody?_flatMap _ _) (doubleText_flatMap _),
      String.ofList_toList, List.append_nil]
    rfl
  | literal => exact absurd hchosen hform

/-! ### Texts on several lines -/

theorem blockScalar_between {line body taken : List Char} {header : BlockHeader}
    {indent : Nat} {lines : List BlockLine} (hline : NoBreak line)
    (hheader : BlockHeader.read? line = some header)
    (hindent : header.indentation m body = .ok indent)
    (hlines : blockLines indent body = .ok (lines, taken)) :
    (between allowed ('|' :: (line ++ '\n' :: body)) p toks m ms).blockScalar .literal =
      .ok (between true (body.drop taken.length) (p.after ('|' :: (line ++ ['\n'] ++ taken)))
        (.scalar .literal (String.ofList (header.join false lines)) :: toks) m ms) := by
  have htail : (between allowed ('|' :: (line ++ '\n' :: body)) p toks m ms).rest.tail =
      line ++ '\n' :: body := rfl
  have hkey : (between allowed ('|' :: (line ++ '\n' :: body)) p toks m ms).dropKey =
      .ok (between allowed ('|' :: (line ++ '\n' :: body)) p toks m ms) := rfl
  have hmargin : (between allowed ('|' :: (line ++ '\n' :: body)) p toks m ms).margin = m := rfl
  have hfront : (line ++ '\n' :: body).takeWhile (! isBreak ·) = line := by
    rw [List.takeWhile_append_of_pos fun c hc => by rw [hline c hc]; rfl,
      List.takeWhile_cons_of_neg (by decide), List.append_nil]
  have hbreak : breakChars ('\n' :: body) = ['\n'] := by
    rw [breakChars] <;> simp [isBreak]
  simp only [blockScalar, htail, hfront, List.drop_left, hbreak, hkey, hheader,
    List.length_singleton, List.drop_succ_cons, List.drop_zero, hmargin, hindent, hlines]
  rfl

/-- A text as a literal block is one token, with the line breaks at its end. -/
theorem step_literal {column : Nat} {next : List Char} (hform : Form.of text = .literal)
    (hcolumn : column < m) (hnext : NoGapAhead next) (hm : m ≤ p.column + 1) :
    (between allowed (writeText (m + 1) text ++ (spaces column ++ next)) p toks m ms).step =
      .ok (.inl (between true (spaces column ++ next) (p.after (writeText (m + 1) text))
        (.scalar .literal text :: toks) m ms)) := by
  have h := Form.of_literal hform
  -- The block ends with a line break, which is added when the text has none at its end.
  let block := literalChars (m + 1) true text.toList ++ missingBreak text.toList
  let body := block ++ (spaces column ++ next)
  have hbody : literalChars (m + 1) true text.toList ++
      (missingBreak text.toList ++ (spaces column ++ next)) = body :=
    (List.append_assoc ..).symm
  have hrest : writeText (m + 1) text ++ (spaces column ++ next) =
      '|' :: (headerLine text.toList ++ '\n' :: body) := by
    rw [writeText_literal _ hform]
    simp [body, block]
  have hindent := indentation_literalChars (Nat.ne_zero_of_lt hcolumn) h.ne_nil h.printable
    (chompingOf text.toList) (missingBreak text.toList ++ (spaces column ++ next))
  have hlines := blockLines_literalChars h.printable (Nat.lt_succ_of_lt hcolumn) hnext
  rw [hbody] at hindent hlines
  have htoken : ∀ rest, (between allowed ('|' :: rest) p toks m ms).tokenAt '|' rest =
      (between allowed ('|' :: rest) p toks m ms).blockScalar .literal := by
    intro rest
    simp [tokenAt, isMark, between, flow]
  have hdrop : body.drop block.length = spaces column ++ next := List.drop_left
  have hafter : '|' :: (headerLine text.toList ++ ['\n'] ++ block) = writeText (m + 1) text := by
    rw [writeText_literal _ hform]
    simp [block]
  rw [hrest, step_of_settled (settled_between (tokenAhead_cons (by decide) (by decide))) rfl hm,
    htoken, blockScalar_between (noBreak_headerLine _) (read?_headerLine _) hindent hlines, hdrop,
    hafter, join_linesOf _ h.ne_nil, String.ofList_toList]
  rfl

/-! ### Keys and values -/

/-- The colon behind a scalar at the place of a key. -/
theorem valueIndicator_key {value : List Char} {key : SimpleKey} {scalar : Token}
    {newLine : Bool} {p' : Position} (hkey : key.before = toks.length) :
    Reading.valueIndicator ⟨':' :: value, p', scalar :: toks, m, ms, newLine, some key, []⟩ =
      .ok (between false value ⟨p'.index + 1, p'.line, p'.column + 1⟩
        (.value :: scalar :: .key :: (opened key.position.column .blockMapping toks m ms).1)
        (opened key.position.column .blockMapping toks m ms).2.1
        (opened key.position.column .blockMapping toks m ms).2.2) := by
  -- The key is put in front of the scalar that stands for it, and opens a mapping there.
  have hinsert : insertKey ⟨':' :: value, p', scalar :: toks, m, ms, newLine, some key, []⟩ key =
      ⟨':' :: value, p',
        scalar :: .key :: (opened key.position.column .blockMapping toks m ms).1,
        (opened key.position.column .blockMapping toks m ms).2.1,
        (opened key.position.column .blockMapping toks m ms).2.2, newLine, none, []⟩ := by
    have hsince : (scalar :: toks).length - key.before = 1 := by
      rw [hkey, List.length_cons]
      omega
    simp only [insertKey, hsince, List.take_succ_cons, List.take_zero, List.length_singleton,
      List.drop_succ_cons, List.drop_zero]
    rw [openBlock_eq rfl]
    rfl
  have hafter : p'.after [':'] = ⟨p'.index + 1, p'.line, p'.column + 1⟩ := by
    rw [after_cons_of_not (by decide), Position.after]
  simp only [valueIndicator, hinsert, skip, move, List.take_succ_cons, List.take_zero,
    List.drop_succ_cons, List.drop_zero, hafter]
  rfl

theorem reads_colon {value : List Char} {key : SimpleKey} {scalar : Token} {newLine : Bool}
    (hvalue : atGap value = true) (hkey : key.before = toks.length)
    (hline : key.position.line = p.line) (hindex : p.index ≤ key.position.index + 1024)
    (hm : m ≤ p.column + 1) :
    Reads ⟨':' :: value, p, scalar :: toks, m, ms, newLine, some key, []⟩
      (between false value ⟨p.index + 1, p.line, p.column + 1⟩
        (.value :: scalar :: .key :: (opened key.position.column .blockMapping toks m ms).1)
        (opened key.position.column .blockMapping toks m ms).2.1
        (opened key.position.column .blockMapping toks m ms).2.2) := by
  have hmark : isMark true (':' :: value) = false := by
    rw [isMark] <;> simp
  have htoken :
      tokenAt ⟨':' :: value, p, scalar :: toks, m, ms, newLine, some key, []⟩ ':' value =
        valueIndicator ⟨':' :: value, p, scalar :: toks, m, ms, newLine, some key, []⟩ := by
    simp [tokenAt, hmark, hvalue]
  refine .of_step ?_ (by simp [between])
  rw [step_of_settled (settled_near (tokenAhead_cons (by decide) (by decide)) hline hindex) rfl hm,
    htoken, valueIndicator_key hkey]
  rfl

/-- A key and its colon. -/
theorem reads_key {key : String} {indent : Nat} {value : List Char}
    (hsimple : isSimpleKey key = true) (hvalue : atGap value = true) (hm : m ≤ p.column + 1) :
    ∃ p', p.column < p'.column ∧
      Reads (between true ((Form.of key).write indent key ++ ':' :: value) p toks m ms)
        (between false value p'
          (.value :: .scalar (Form.of key).style key ::
            .key :: (opened p.column .blockMapping toks m ms).1)
          (opened p.column .blockMapping toks m ms).2.1
          (opened p.column .blockMapping toks m ms).2.2) := by
  obtain ⟨hliteral, hline, hwritten, hlen⟩ := write_simpleKey hsimple indent
  obtain ⟨front, back, hgap, hstep⟩ := step_line hliteral (.inr hline)
    (PlainContext.ends_colon hvalue) hm (by rintro c ⟨⟩; decide)
  obtain ⟨rfl, rfl⟩ : front = [] ∧ back = [] := by
    rcases hgap with ⟨h, h'⟩ | ⟨h, h'⟩ <;> exact ⟨h, h'⟩
  rw [List.append_nil, after_of_noBreak hwritten] at hstep
  refine ⟨_, Nat.lt_succ_of_le (Nat.le_add_right _ _), Reads.trans (.of_step hstep ?_)
    (reads_colon hvalue rfl rfl (Nat.add_le_add_left hlen _)
      (Nat.le_trans hm (Nat.add_le_add_right (Nat.le_add_right _ _) _)))⟩
  have hpos := List.length_pos_iff.mpr (write_ne_nil key indent)
  simp only [behindScalar, between, List.nil_append, List.length_append]
  omega

/-- A text behind an indicator, with the line break at its end. -/
theorem reads_text {column : Nat} {next : List Char} (hallowed : allowed = true → m ≠ p.column + 1)
    (hm : m ≤ p.column + 1) (hcolumn : column < m) (hnext : TokenAhead next) :
    ReadsTo (between allowed (writeText (m + 1) text ++ (spaces column ++ next)) p toks m ms)
      column next (.scalar (Form.of text).style text :: toks) m ms := by
  by_cases hform : Form.of text = .literal
  · -- The last line break belongs to the literal, so the next token is at the start of a line.
    have hwritten := writeText_literal (m + 1) hform
    obtain ⟨before, b, hb, hblock⟩ := exists_literalChars_break (m + 1)
      (Form.of_literal hform).ne_nil
    have hstart : (p.after (writeText (m + 1) text)).column = 0 := by
      have hends : writeText (m + 1) text =
          ('|' :: (headerLine text.toList ++ '\n' :: before)) ++ b :: spaces 0 := by
        rw [hwritten, hblock]
        simp [spaces]
      rw [hends]
      exact (after_append_break p _ hb 0).2
    rw [hform]
    refine ⟨_, ?_, Reads.trans (.of_step (step_literal hform hcolumn hnext.noGap hm) ?_)
      (reads_gap hnext column)⟩
    · show (p.after (writeText (m + 1) text)).column + column = column
      rw [hstart, Nat.zero_add]
    · rw [hwritten]
      simp only [between, List.cons_append, List.length_cons, List.length_append]
      omega
  · have hwritten : writeText (m + 1) text ++ (spaces column ++ next) =
        (Form.of text).write (m + 1) text ++ ('\n' :: spaces column ++ next) := by
      simp [writeText, hform]
    obtain ⟨front, back, hgap, hstep⟩ := step_line hform (.inl (Nat.succ_ne_zero m))
      (PlainContext.ends_line hcolumn hnext.noGap) hm (by rintro c ⟨⟩; decide)
    rw [hwritten]
    have hpos := List.length_pos_iff.mpr (write_ne_nil text (m + 1))
    rcases hgap with ⟨rfl, rfl⟩ | ⟨rfl, rfl⟩
    · -- The line break is left to the gap before the next token.
      rw [List.append_nil] at hstep
      let behind := p.after ((Form.of text).write (m + 1) text)
      refine ⟨⟨behind.index + 1 + column, behind.line + 1, column⟩, rfl,
        Reads.trans (.of_step hstep ?_) (.of_toToken ?_ ?_)⟩
      · simp only [behindScalar, between, List.length_append]
        omega
      · rw [settled_between hnext]
        refine settled_line hnext column fun key hkey => ⟨?_, (mem_placeKept hallowed hkey).2⟩
        rw [(mem_placeKept hallowed hkey).1]
        exact line_le_after p _
      · simp only [behindScalar, between, List.length_append]
        omega
    · -- The line break was taken with the scalar.
      obtain ⟨hline, hbehind⟩ := after_append_break p ((Form.of text).write (m + 1) text)
        (show isBreak '\n' = true by decide) column
      refine ⟨_, hbehind, Reads.trans (.of_step hstep ?_) (.of_toToken ?_ ?_)⟩
      · simp only [behindScalar, between, List.nil_append, List.length_append]
        omega
      · rw [settled_between hnext]
        refine settled_later hnext fun key hkey => ⟨?_, (mem_placeKept hallowed hkey).2⟩
        rw [(mem_placeKept hallowed hkey).1]
        exact hline
      · simp [behindScalar, between]

end Reading

end DeploymentBackup.Yaml
