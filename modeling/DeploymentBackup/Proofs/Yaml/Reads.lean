import DeploymentBackup.Proofs.Yaml.Gap
import DeploymentBackup.Yaml.Tokens

namespace DeploymentBackup.Yaml

/-!
# Going on from one token to the next

Reading is a run of steps with a bound on their number. What counts is which place in the
text is reached with which tokens: the gap before a token makes no difference, and each step
takes at least one character, so the bound is never reached.

* `TokenAhead` — a token starts here.
* `Reading.between` — between two tokens of a text without flow collections around it.
* `Reading.Reads` — the run from one state goes on as the run from another one.
* `reads_gap`, `reads_line`, `reads_close` — what happens between tokens.
* `reads_item`, `reads_longKey`, `reads_longValue` — the indicators of block collections.
* `step_end` — the end of the text.
-/

/-- Neither a blank nor a comment stands here: a token starts, or the text is at its end. -/
structure TokenAhead (cs : List Char) : Prop where
  noGap : NoGapAhead cs
  noComment : cs.head? ≠ some '#'

theorem tokenAhead_nil : TokenAhead [] :=
  ⟨noGapAhead_nil, by simp⟩

theorem tokenAhead_cons {c : Char} {cs : List Char} (hgap : isGap c = false) (hc : c ≠ '#') :
    TokenAhead (c :: cs) :=
  ⟨noGapAhead_cons.mpr hgap, by simpa using hc⟩

namespace Reading

/-! ### Runs that go on alike -/

/-- The run from `s` goes on as the run from `t`, after no more steps than characters. -/
def Reads (s t : Reading) : Prop :=
  ∃ n, n + t.rest.length ≤ s.rest.length ∧ ∀ fuel, s.run (fuel + n) = t.run fuel

theorem Reads.trans {s t u : Reading} (h : Reads s t) (h' : Reads t u) : Reads s u := by
  obtain ⟨n, hn, hrun⟩ := h
  obtain ⟨k, hk, hrun'⟩ := h'
  refine ⟨k + n, by omega, ?_⟩
  intro fuel
  rw [← Nat.add_assoc, hrun, hrun']

/-- States with the same next step. -/
theorem Reads.of_step_eq {s t : Reading} (h : s.step = t.step)
    (hlen : t.rest.length ≤ s.rest.length) : Reads s t := by
  refine ⟨0, by omega, ?_⟩
  intro fuel
  cases fuel with
  | zero => rfl
  | succ fuel => rw [Nat.add_zero, run, run, h]

/-- States that stand before the same token. -/
theorem Reads.of_toToken {s t : Reading} (h : s.toToken.giveUpKeys = t.toToken.giveUpKeys)
    (hlen : t.rest.length ≤ s.rest.length) : Reads s t :=
  .of_step_eq (by rw [step, step, h]) hlen

/-- A step that takes something. -/
theorem Reads.of_step {s t : Reading} (h : s.step = .ok (.inl t))
    (hlen : t.rest.length < s.rest.length) : Reads s t := by
  refine ⟨1, by omega, ?_⟩
  intro fuel
  rw [run, h]

/-- The tokens of a text whose last step is known. -/
theorem Reads.run_eq {s t : Reading} (h : Reads s t) {ts : List Token}
    (hend : t.step = .ok (.inr ts)) {fuel : Nat} (hfuel : s.rest.length < fuel) :
    s.run fuel = .ok ts := by
  obtain ⟨n, hn, hrun⟩ := h
  obtain ⟨more, rfl⟩ : ∃ more, fuel = more + 1 + n := ⟨fuel - 1 - n, by omega⟩
  rw [hrun, run, hend]

/-- The token that stands here, or the end of the text. -/
def act (s : Reading) : Except Fault (Reading ⊕ List Token) :=
  match s.rest with
  | [] => s.finish.map .inr
  | c :: rest => (s.tokenAt c rest).map .inl

/-- A step closes what the column of the token closes, and takes the token. -/
theorem step_eq_act {s t : Reading} (h : s.toToken.giveUpKeys = .ok t) :
    s.step = (t.closeBlocks (t.position.column + 1)).act := by
  rw [step, h]
  rfl

/-! ### Between two tokens -/

/-- Between two tokens outside of flow collections, with no place kept for a key. -/
def between (allowed : Bool) (rest : List Char) (p : Position) (tokens : List Token)
    (margin : Nat) (margins : List Nat) : Reading :=
  ⟨rest, p, tokens, margin, margins, allowed, none, []⟩

variable {allowed : Bool} {p : Position} {toks : List Token} {m : Nat} {ms : List Nat}

theorem gap_tokenAhead {flow : Bool} {cs : List Char} (h : TokenAhead cs) :
    gap flow false allowed p cs = (allowed, p, cs) := by
  cases cs with
  | nil => rw [gap]
  | cons c cs =>
    have hgap : isGap c = false := noGapAhead_cons.mp h.noGap
    have hbreak := isBreak_of_isGap_eq_false hgap
    have hspace : isSpace c = false := (Bool.or_eq_false_iff.mp hgap).1
    have hc : c ≠ '#' := by simpa using h.noComment
    simp only [isSpace, Bool.or_eq_false_iff, decide_eq_false_iff_not] at hspace
    rw [gap]
    · simp [hbreak, hc, hspace]
    · rintro rest rfl
      exact absurd hbreak (by decide)

theorem gap_spaces {cs : List Char} (h : TokenAhead cs) (n : Nat) :
    gap false false allowed p (spaces n ++ cs) =
      (allowed, ⟨p.index + n, p.line, p.column + n⟩, cs) := by
  induction n generalizing p with
  | zero => exact gap_tokenAhead h
  | succ n ih =>
    show gap false false allowed p (' ' :: (spaces n ++ cs)) = _
    have hstep : gap false false allowed p (' ' :: (spaces n ++ cs)) =
        gap false false allowed ⟨p.index + 1, p.line, p.column + 1⟩ (spaces n ++ cs) := by
      rw [gap]
      · rfl
      · intro rest hr
        simp at hr
    rw [hstep, ih]
    simp only [Prod.mk.injEq, Position.mk.injEq, and_true, true_and]
    omega

/-- Behind the end of a line a key may start. -/
theorem gap_line {cs : List Char} (h : TokenAhead cs) (n : Nat) :
    gap false false allowed p ('\n' :: (spaces n ++ cs)) =
      (true, ⟨p.index + 1 + n, p.line + 1, n⟩, cs) := by
  have hstep : gap false false allowed p ('\n' :: (spaces n ++ cs)) =
      gap false false true ⟨p.index + 1, p.line + 1, 0⟩ (spaces n ++ cs) := by
    rw [gap]
    · simp [isBreak]
    · intro rest hr
      simp at hr
  rw [hstep, gap_spaces h, Nat.zero_add]

/-- A place kept for a key that need not be one is given up on a later line. -/
theorem giveUpKeys_later {s : Reading} (houter : s.outer = [])
    (h : ∀ key ∈ s.pending, key.position.line < s.position.line ∧ key.required = false) :
    s.giveUpKeys = .ok { s with pending := none } := by
  obtain ⟨rest, p, toks, m, ms, allowed, pending, outer⟩ := s
  have hpending : giveUp p pending = .ok none := by
    cases pending with
    | none => rfl
    | some key => simp [giveUp, h key rfl]
  rw [show outer = [] from houter, giveUpKeys, hpending]
  rfl

/-- Before a token nothing is skipped, but places kept on earlier lines are given up. -/
theorem settled_later {cs : List Char} (h : TokenAhead cs) {pending : Option SimpleKey}
    (hpending : ∀ key ∈ pending, key.position.line < p.line ∧ key.required = false) :
    (toToken ⟨cs, p, toks, m, ms, allowed, pending, []⟩).giveUpKeys =
      .ok (between allowed cs p toks m ms) := by
  rw [toToken]
  show giveUpKeys ⟨(gap false false allowed p cs).2.2, (gap false false allowed p cs).2.1,
    toks, m, ms, (gap false false allowed p cs).1, pending, []⟩ = _
  rw [gap_tokenAhead h, giveUpKeys_later rfl hpending]
  rfl

theorem settled_between {cs : List Char} (h : TokenAhead cs) :
    (between allowed cs p toks m ms).toToken.giveUpKeys =
      .ok (between allowed cs p toks m ms) :=
  settled_later h (by simp)

/-- A place kept on this line is not given up before it is far away. -/
theorem settled_near {cs : List Char} (h : TokenAhead cs) {key : SimpleKey}
    (hline : key.position.line = p.line) (hindex : p.index ≤ key.position.index + 1024) :
    (toToken ⟨cs, p, toks, m, ms, allowed, some key, []⟩).giveUpKeys =
      .ok ⟨cs, p, toks, m, ms, allowed, some key, []⟩ := by
  have hkeep : giveUp p (some key) = .ok (some key) := by
    have hnear : ¬ (key.position.line < p.line ∨ key.position.index + 1024 < p.index) := by omega
    simp [giveUp, hnear]
  rw [toToken]
  show giveUpKeys ⟨(gap false false allowed p cs).2.2, (gap false false allowed p cs).2.1,
    toks, m, ms, (gap false false allowed p cs).1, some key, []⟩ = _
  rw [gap_tokenAhead h, giveUpKeys]
  simp only [hkeep]
  rfl

/-- Spaces before a token make no difference. -/
theorem reads_gap {cs : List Char} (h : TokenAhead cs) (n : Nat) :
    Reads (between allowed (spaces n ++ cs) p toks m ms)
      (between allowed cs ⟨p.index + n, p.line, p.column + n⟩ toks m ms) := by
  refine .of_toToken ?_ (by simp [between])
  rw [settled_between h, toToken]
  show giveUpKeys { between allowed (spaces n ++ cs) p toks m ms with
    keyAllowed := (gap false false allowed p (spaces n ++ cs)).1,
    position := (gap false false allowed p (spaces n ++ cs)).2.1,
    rest := (gap false false allowed p (spaces n ++ cs)).2.2 } = _
  rw [gap_spaces h]
  rfl

/-- The end of a line before a token. A place kept for a key on that line is given up. -/
theorem settled_line {cs : List Char} (h : TokenAhead cs) (n : Nat) {pending : Option SimpleKey}
    (hpending : ∀ key ∈ pending, key.position.line ≤ p.line ∧ key.required = false) :
    (toToken ⟨'\n' :: (spaces n ++ cs), p, toks, m, ms, allowed, pending, []⟩).giveUpKeys =
      .ok (between true cs ⟨p.index + 1 + n, p.line + 1, n⟩ toks m ms) := by
  rw [toToken]
  show giveUpKeys ⟨(gap false false allowed p ('\n' :: (spaces n ++ cs))).2.2,
    (gap false false allowed p ('\n' :: (spaces n ++ cs))).2.1, toks, m, ms,
    (gap false false allowed p ('\n' :: (spaces n ++ cs))).1, pending, []⟩ = _
  rw [gap_line h, giveUpKeys_later rfl]
  · rfl
  · intro key hkey
    exact ⟨Nat.lt_succ_of_le (hpending key hkey).1, (hpending key hkey).2⟩

/-- A line break makes no difference but that a key may start behind it. -/
theorem reads_line {cs : List Char} (h : TokenAhead cs) (n : Nat) :
    Reads (between allowed ('\n' :: (spaces n ++ cs)) p toks m ms)
      (between true cs ⟨p.index + 1 + n, p.line + 1, n⟩ toks m ms) := by
  refine .of_toToken ?_ (by simp only [between, List.length_cons, List.length_append]; omega)
  rw [settled_between h]
  exact settled_line h n (by simp)

/-- The run from `s` reaches a token at `column` with these tokens and margins. -/
def ReadsTo (s : Reading) (column : Nat) (next : List Char) (tokens : List Token) (margin : Nat)
    (margins : List Nat) : Prop :=
  ∃ p, p.column = column ∧ Reads s (between true next p tokens margin margins)

theorem Reads.to {s t : Reading} {column : Nat} {next : List Char} (h : Reads s t)
    (h' : ReadsTo t column next toks m ms) : ReadsTo s column next toks m ms := by
  obtain ⟨p, hp, hreads⟩ := h'
  exact ⟨p, hp, h.trans hreads⟩

/-! ### Closing -/

theorem closing_of_le {limit : Nat} (h : m ≤ limit) : closing limit m ms = (m, ms, 0) := by
  cases ms with
  | nil => rfl
  | cons k ks => rw [closing, if_neg (by omega)]

theorem closeBlocks_of_le {s : Reading} {limit : Nat} (h : s.margin ≤ limit) :
    s.closeBlocks limit = s := by
  unfold closeBlocks
  split
  · rfl
  · rw [closing_of_le h]
    rfl

theorem closeBlocks_between {rest : List Char} {limit k : Nat} (h : limit < m) :
    (between allowed rest p toks m (k :: ms)).closeBlocks limit =
      (between allowed rest p (.blockEnd :: toks) k ms).closeBlocks limit := by
  have hclosing : closing limit m (k :: ms) =
      ((closing limit k ms).1, (closing limit k ms).2.1, (closing limit k ms).2.2 + 1) := by
    rw [closing, if_pos h]
  simp only [closeBlocks, between, flow, hclosing, List.isEmpty_nil, Bool.not_true,
    Bool.false_eq_true, if_false, List.replicate_succ', List.append_assoc, List.singleton_append]

/-- A token that is indented less closes the innermost collection. -/
theorem reads_close {cs : List Char} {k : Nat} (h : TokenAhead cs) (hcolumn : p.column + 1 < m) :
    Reads (between allowed cs p toks m (k :: ms))
      (between allowed cs p (.blockEnd :: toks) k ms) := by
  refine .of_step_eq ?_ (Nat.le_refl _)
  rw [step_eq_act (settled_between h), step_eq_act (settled_between h)]
  exact congrArg act (closeBlocks_between hcolumn)

/-- The step at a token that closes no collection. -/
theorem step_of_settled {s : Reading} {c : Char} {rest : List Char}
    (hsettled : s.toToken.giveUpKeys = .ok s) (hrest : s.rest = c :: rest)
    (hmargin : s.margin ≤ s.position.column + 1) : s.step = (s.tokenAt c rest).map .inl := by
  rw [step_eq_act hsettled, closeBlocks_of_le hmargin, act, hrest]

/-- The end of a text with a collection at its margin. -/
theorem step_end : (between allowed [] p toks 1 [0]).step =
    .ok (.inr (toks.reverse ++ [.blockEnd, .streamEnd])) := by
  rw [step_eq_act (settled_between tokenAhead_nil), closeBlocks_of_le]
  · simp [act, between, finish, closeBlocks, flow, closing, dropKey, emit, Except.map]
  · exact Nat.le_add_left 1 p.column

/-- The end of a text outside of all collections. -/
theorem step_end_outside : (between allowed [] p toks 0 []).step =
    .ok (.inr (toks.reverse ++ [.streamEnd])) := by
  rw [step_eq_act (settled_between tokenAhead_nil), closeBlocks_of_le]
  · simp [act, between, finish, closeBlocks, flow, closing, dropKey, emit, Except.map]
  · exact Nat.zero_le (p.column + 1)

/-! ### The indicators of block collections -/

/-- The tokens, the margin and the margins around it once a collection is open at a column. -/
def opened (column : Nat) (token : Token) (toks : List Token) (m : Nat) (ms : List Nat) :
    List Token × Nat × List Nat :=
  if m < column + 1 then (token :: toks, column + 1, m :: ms) else (toks, m, ms)

theorem opened_new {column : Nat} {token : Token} (h : m ≤ column) :
    opened column token toks m ms = (token :: toks, column + 1, m :: ms) :=
  if_pos (Nat.lt_succ_of_le h)

theorem opened_open {column : Nat} {token : Token} :
    opened column token toks (column + 1) ms = (toks, column + 1, ms) :=
  if_neg (Nat.lt_irrefl _)

theorem openBlock_eq {s : Reading} {column : Nat} {token : Token} (houter : s.outer = []) :
    s.openBlock column token =
      { s with
        tokens := (opened column token s.tokens s.margin s.margins).1
        margin := (opened column token s.tokens s.margin s.margins).2.1
        margins := (opened column token s.tokens s.margin s.margins).2.2 } := by
  have hflow : s.flow = false := by rw [flow, houter]; rfl
  rw [openBlock, opened, hflow]
  by_cases hm : s.margin < column + 1
  · simp only [hm, if_true, Bool.not_false, decide_true, Bool.and_self]
    rfl
  · simp [hm]

/-- An indicator where a key may start. -/
theorem blockIndicator_eq {c : Char} {rest : List Char} {opening token : Token}
    {allowed : Bool} (hc : isBreak c = false) :
    (between true (c :: rest) p toks m ms).blockIndicator opening token allowed =
      .ok (between allowed rest ⟨p.index + 1, p.line, p.column + 1⟩
        (token :: (opened p.column opening toks m ms).1) (opened p.column opening toks m ms).2.1
        (opened p.column opening toks m ms).2.2) := by
  rw [blockIndicator]
  show (((between true (c :: rest) p toks m ms).openBlock p.column opening).dropKey).map _ = _
  rw [openBlock_eq rfl]
  show Except.ok (between allowed rest (p.after [c]) _ _ _) = _
  rw [after_cons_of_not hc, Position.after]
  rfl

theorem reads_indicator {c : Char} {rest : List Char} {opening token : Token}
    (hc : isGap c = false) (hcomment : c ≠ '#') (hm : m ≤ p.column + 1)
    (htoken : (between true (c :: rest) p toks m ms).tokenAt c rest =
      (between true (c :: rest) p toks m ms).blockIndicator opening token true) :
    Reads (between true (c :: rest) p toks m ms)
      (between true rest ⟨p.index + 1, p.line, p.column + 1⟩
        (token :: (opened p.column opening toks m ms).1) (opened p.column opening toks m ms).2.1
        (opened p.column opening toks m ms).2.2) := by
  refine .of_step ?_ (by simp [between])
  rw [step_of_settled (settled_between (tokenAhead_cons hc hcomment)) rfl hm, htoken,
    blockIndicator_eq (isBreak_of_isGap_eq_false hc)]
  rfl

/-- The dash of an item. -/
theorem reads_item {rest : List Char} (hrest : atGap rest = true) (hm : m ≤ p.column + 1) :
    Reads (between true ('-' :: rest) p toks m ms)
      (between true rest ⟨p.index + 1, p.line, p.column + 1⟩
        (.item :: (opened p.column .blockSequence toks m ms).1)
        (opened p.column .blockSequence toks m ms).2.1
        (opened p.column .blockSequence toks m ms).2.2) := by
  refine reads_indicator (by decide) (by decide) hm ?_
  have hmark : isMark true ('-' :: rest) = false := by
    cases rest with
    | nil => rfl
    | cons d rest =>
      have hd : d ≠ '-' := by
        rintro rfl
        exact absurd (show isGap '-' = true from hrest) (by decide)
      rw [isMark] <;> simp [hd]
  simp [tokenAt, hmark, hrest]

/-- The question mark before a long key. -/
theorem reads_longKey {rest : List Char} (hrest : atGap rest = true) (hm : m ≤ p.column + 1) :
    Reads (between true ('?' :: rest) p toks m ms)
      (between true rest ⟨p.index + 1, p.line, p.column + 1⟩
        (.key :: (opened p.column .blockMapping toks m ms).1)
        (opened p.column .blockMapping toks m ms).2.1
        (opened p.column .blockMapping toks m ms).2.2) := by
  refine reads_indicator (by decide) (by decide) hm ?_
  have hmark : isMark true ('?' :: rest) = false := by
    rw [isMark] <;> simp
  simp [tokenAt, hmark, hrest, between, flow]

/-- The colon behind a long key, at the column of its mapping. -/
theorem reads_longValue {rest : List Char} (hrest : atGap rest = true) :
    Reads (between true (':' :: rest) p toks (p.column + 1) ms)
      (between true rest ⟨p.index + 1, p.line, p.column + 1⟩ (.value :: toks)
        (p.column + 1) ms) := by
  have hmark : isMark true (':' :: rest) = false := by
    rw [isMark] <;> simp
  have htoken : (between true (':' :: rest) p toks (p.column + 1) ms).tokenAt ':' rest =
      (between true (':' :: rest) p toks (p.column + 1) ms).blockIndicator
        .blockMapping .value true := by
    simp [tokenAt, hmark, hrest, between, flow, valueIndicator]
  have h := reads_indicator (by decide) (by decide) (Nat.le_refl _) htoken
  rwa [opened_open] at h

end Reading

end DeploymentBackup.Yaml
