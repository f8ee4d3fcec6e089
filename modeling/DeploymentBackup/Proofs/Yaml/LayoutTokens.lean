import DeploymentBackup.Proofs.Yaml.ScalarToken

namespace DeploymentBackup.Yaml

/-!
# The tokens of a written document

A document in block style is read back as the tokens of its layout: each collection opens
where its first line is indented more than the collection around it, and closes where a line
is indented less. Only a list right below its key is not indented, and has no tokens of its
own beside those of its items.

* `nodeTokens`, `entryTokens`, `itemTokens` — the tokens of a layout.
* `reads_value`, `reads_beside`, `reads_entries`, `reads_items` — the parts of a document.
* `tokens_print` — the tokens of a document.
-/

mutual

/-- The tokens of a layout; a list may stand below its key without being indented. -/
def nodeTokens (flush : Bool) : Layout → List Token
  | .text value => [.scalar (Form.of value).style value]
  | .mapping [] => [.openMapping, .closeMapping]
  | .mapping entries => .blockMapping :: (entryTokens entries ++ [.blockEnd])
  | .list [] => [.openSequence, .closeSequence]
  | .list items =>
    if flush then itemTokens items else .blockSequence :: (itemTokens items ++ [.blockEnd])

/-- The tokens of the entries of a mapping. -/
def entryTokens : List (String × Layout) → List Token
  | [] => []
  | (key, value) :: rest =>
    .key :: .scalar (Form.of key).style key :: .value ::
      (nodeTokens (isSimpleKey key) value ++ entryTokens rest)

/-- The tokens of the items of a list. -/
def itemTokens : List Layout → List Token
  | [] => []
  | item :: rest => .item :: (nodeTokens false item ++ itemTokens rest)

end

/-! ### The lines of a collection -/

theorem writeEntries_fresh {indent : Nat} {entry : String × Layout}
    {rest : List (String × Layout)} :
    writeEntries indent true (entry :: rest) =
      spaces indent ++ writeEntries indent false (entry :: rest) := by
  obtain ⟨key, value⟩ := entry
  rw [writeEntries, writeEntries]
  simp

theorem writeItems_fresh {indent : Nat} {item : Layout} {rest : List Layout} :
    writeItems indent true (item :: rest) =
      spaces indent ++ writeItems indent false (item :: rest) := by
  rw [writeItems, writeItems]
  simp

theorem tokenAhead_writeEntries {indent : Nat} {entry : String × Layout}
    {rest : List (String × Layout)} {more : List Char} :
    TokenAhead (writeEntries indent false (entry :: rest) ++ more) := by
  obtain ⟨key, value⟩ := entry
  rw [writeEntries, if_neg (by decide), List.nil_append]
  split
  · rw [List.append_assoc, List.append_assoc]
    exact tokenAhead_write
  · exact tokenAhead_cons (by decide) (by decide)

theorem tokenAhead_writeItems {indent : Nat} {item : Layout} {rest : List Layout}
    {more : List Char} : TokenAhead (writeItems indent false (item :: rest) ++ more) := by
  rw [writeItems, if_neg (by decide), List.nil_append]
  exact tokenAhead_cons (by decide) (by decide)

theorem tokenAhead_writeText {indent : Nat} {text : String} {more : List Char} :
    TokenAhead (writeText indent text ++ more) := by
  unfold writeText
  simp only []
  split
  · exact tokenAhead_write
  · rw [List.append_assoc]
    exact tokenAhead_write

theorem tokenAhead_writeBeside {indent : Nat} {layout : Layout} {more : List Char} :
    TokenAhead (writeBeside indent layout ++ more) := by
  unfold writeBeside
  split
  · exact tokenAhead_writeText
  · exact tokenAhead_cons (by decide) (by decide)
  · rename_i entries hne
    obtain ⟨entry, rest, rfl⟩ := List.exists_cons_of_ne_nil hne
    exact tokenAhead_writeEntries
  · exact tokenAhead_cons (by decide) (by decide)
  · rename_i items hne
    obtain ⟨item, rest, rfl⟩ := List.exists_cons_of_ne_nil hne
    exact tokenAhead_writeItems

theorem atGap_writeValue {indent : Nat} {layout : Layout} {more : List Char} :
    atGap (writeValue indent layout ++ more) = true := by
  unfold writeValue
  split <;> rfl

namespace Reading

variable {allowed : Bool} {p : Position} {toks : List Token} {m : Nat} {ms : List Nat}

/-! ### Empty collections -/

theorem settled_flow {c : Char} {rest : List Char} {key : Option SimpleKey}
    (hc : isGap c = false) (hcomment : c ≠ '#')
    (hkey : ∀ k ∈ key, k.position.line = p.line ∧ p.index ≤ k.position.index + 1024) :
    (toToken ⟨c :: rest, p, toks, m, ms, allowed, none, [key]⟩).giveUpKeys =
      .ok ⟨c :: rest, p, toks, m, ms, allowed, none, [key]⟩ := by
  have hkeep : giveUp p key = .ok key := by
    cases key with
    | none => rfl
    | some k =>
      obtain ⟨hline, hindex⟩ := hkey k rfl
      have hnear : ¬ (k.position.line < p.line ∨ k.position.index + 1024 < p.index) := by omega
      simp [giveUp, hnear]
  have hmap : [key].mapM (giveUp p) = .ok [key] := by
    rw [List.mapM_cons, hkeep]
    rfl
  rw [toToken]
  show giveUpKeys ⟨(gap true false allowed p (c :: rest)).2.2,
    (gap true false allowed p (c :: rest)).2.1, toks, m, ms,
    (gap true false allowed p (c :: rest)).1, none, [key]⟩ = _
  rw [gap_tokenAhead (tokenAhead_cons hc hcomment), giveUpKeys]
  simp only [hmap]
  rfl

/-- A collection without entries, with the line break behind it. -/
theorem reads_empty (start finish : Char) {opening closing : Token} {column : Nat}
    {next : List Char} (hstart : isGap start = false ∧ start ≠ '#')
    (hfinish : isGap finish = false ∧ finish ≠ '#')
    (hopen : ∀ (s : Reading) rest, s.tokenAt start rest = s.openFlow opening)
    (hclose : ∀ (s : Reading) rest, s.tokenAt finish rest = s.closeFlow closing)
    (hallowed : allowed = true → m ≠ p.column + 1) (hm : m ≤ p.column + 1)
    (hnext : TokenAhead next) :
    ReadsTo (between allowed (start :: finish :: '\n' :: (spaces column ++ next)) p toks m ms)
      column next (closing :: opening :: toks) m ms := by
  have hafter : ∀ (q : Position) {c : Char}, isGap c = false →
      q.after [c] = ⟨q.index + 1, q.line, q.column + 1⟩ := by
    intro q c hc
    rw [after_cons_of_not (isBreak_of_isGap_eq_false hc), Position.after]
  -- Where the reader stands between the two brackets, and behind them.
  let inside : Reading := ⟨finish :: '\n' :: (spaces column ++ next),
    ⟨p.index + 1, p.line, p.column + 1⟩, opening :: toks, m, ms, true, none,
    [placeKept allowed toks p m]⟩
  let behind : Reading := ⟨'\n' :: (spaces column ++ next),
    ⟨p.index + 2, p.line, p.column + 2⟩, closing :: opening :: toks, m, ms, false,
    placeKept allowed toks p m, []⟩
  have hopened : (between allowed (start :: finish :: '\n' :: (spaces column ++ next))
      p toks m ms).step = .ok (.inl inside) := by
    rw [step_of_settled (settled_between (tokenAhead_cons hstart.1 hstart.2)) rfl hm, hopen,
      openFlow, keepKey_between]
    show Except.ok (Sum.inl { inside with position := p.after [start] }) = _
    rw [hafter p hstart.1]
  have hclosed : inside.step = .ok (.inl behind) := by
    have hsettled : inside.toToken.giveUpKeys = .ok inside := by
      refine settled_flow hfinish.1 hfinish.2 fun key hkey => ?_
      rw [(mem_placeKept hallowed hkey).1]
      exact ⟨rfl, Nat.add_le_add_left (by decide) _⟩
    have hblocks : inside.closeBlocks (inside.position.column + 1) = inside := rfl
    rw [step_eq_act hsettled, hblocks]
    show Except.map _ (inside.tokenAt finish ('\n' :: (spaces column ++ next))) = _
    rw [hclose]
    show Except.ok (Sum.inl { behind with position := inside.position.after [finish] }) = _
    rw [hafter _ hfinish.1]
  refine ⟨⟨p.index + 3 + column, p.line + 1, column⟩, rfl, Reads.trans (.of_step hopened ?_)
    (Reads.trans (.of_step hclosed ?_) (.of_toToken ?_ ?_))⟩
  · simp [inside, between]
  · simp [inside, behind]
  · rw [settled_between hnext]
    exact settled_line hnext column fun key hkey =>
      ⟨by rw [(mem_placeKept hallowed hkey).1], (mem_placeKept hallowed hkey).2⟩
  · simp only [behind, between, List.length_cons, List.length_append]
    omega

theorem reads_emptyMapping (column : Nat) {next : List Char}
    (hallowed : allowed = true → m ≠ p.column + 1) (hm : m ≤ p.column + 1)
    (hnext : TokenAhead next) :
    ReadsTo (between allowed ("\x7b\x7d\n".toList ++ (spaces column ++ next)) p toks m ms)
      column next (.closeMapping :: .openMapping :: toks) m ms :=
  reads_empty '{' '}' (by decide) (by decide)
    (fun s rest => by simp [tokenAt, isMark]) (fun s rest => by simp [tokenAt, isMark])
    hallowed hm hnext

theorem reads_emptyList (column : Nat) {next : List Char}
    (hallowed : allowed = true → m ≠ p.column + 1) (hm : m ≤ p.column + 1)
    (hnext : TokenAhead next) :
    ReadsTo (between allowed ("[]\n".toList ++ (spaces column ++ next)) p toks m ms)
      column next (.closeSequence :: .openSequence :: toks) m ms :=
  reads_empty '[' ']' (by decide) (by decide)
    (fun s rest => by simp [tokenAt, isMark]) (fun s rest => by simp [tokenAt, isMark])
    hallowed hm hnext

/-! ### Layouts -/

theorem ReadsTo.close {s : Reading} {column k : Nat} {next : List Char}
    (h : ReadsTo s column next toks m (k :: ms)) (hnext : TokenAhead next)
    (hcolumn : column + 1 < m) : ReadsTo s column next (.blockEnd :: toks) k ms := by
  obtain ⟨p, hp, hreads⟩ := h
  exact ⟨p, hp, hreads.trans (reads_close hnext (by rw [hp]; exact hcolumn))⟩

theorem opened_margin {column : Nat} {token : Token} (h : m ≤ column + 1) :
    (opened column token toks m ms).2.1 = column + 1 := by
  unfold opened
  split
  · rfl
  · show m = column + 1
    omega

/-- What a mapping takes once it is open, with the end of it. -/
theorem reads_mapping {entries : List (String × Layout)} {start column : Nat} {next : List Char}
    (hne : entries ≠ []) (hm : m ≤ start) (hcolumn : column < m) (hnext : TokenAhead next)
    {s : Reading}
    (h : ReadsTo s column next
      ((entryTokens entries).reverse ++ (opened start .blockMapping toks m ms).1)
      (start + 1) (opened start .blockMapping toks m ms).2.2) (flush : Bool) :
    ReadsTo s column next ((nodeTokens flush (.mapping entries)).reverse ++ toks) m ms := by
  rw [opened_new hm] at h
  have hclosed := ReadsTo.close h hnext (by omega)
  have htokens : (nodeTokens flush (.mapping entries)).reverse ++ toks =
      .blockEnd :: ((entryTokens entries).reverse ++ .blockMapping :: toks) := by
    rw [nodeTokens]
    · simp
    · exact hne
  rw [htokens]
  exact hclosed

/-- What an indented list takes once it is open, with the end of it. -/
theorem reads_list {items : List Layout} {start column : Nat} {next : List Char}
    (hne : items ≠ []) (hm : m ≤ start) (hcolumn : column < m) (hnext : TokenAhead next)
    {s : Reading}
    (h : ReadsTo s column next
      ((itemTokens items).reverse ++ (opened start .blockSequence toks m ms).1)
      (start + 1) (opened start .blockSequence toks m ms).2.2) :
    ReadsTo s column next ((nodeTokens false (.list items)).reverse ++ toks) m ms := by
  rw [opened_new hm] at h
  have hclosed := ReadsTo.close h hnext (by omega)
  have htokens : (nodeTokens false (.list items)).reverse ++ toks =
      .blockEnd :: ((itemTokens items).reverse ++ .blockSequence :: toks) := by
    rw [nodeTokens]
    · simp
    · exact hne
  rw [htokens]
  exact hclosed

/-- An entry with a short key, given what its value takes. -/
theorem reads_shortEntry {key : String} {value : Layout} {start column : Nat}
    {more next : List Char} (hsimple : isSimpleKey key = true) (hp : p.column = start)
    (hm : m ≤ start + 1)
    (hvalue : ∀ {q : Position} {ts : List Token} {ks : List Nat}, start ≤ q.column →
      ReadsTo (between false (writeValue start value ++ more) q ts (start + 1) ks)
        column next ((nodeTokens true value).reverse ++ ts) (start + 1) ks) :
    ReadsTo (between true ((Form.of key).write start key ++ ':' ::
        (writeValue start value ++ more)) p toks m ms) column next
      ((nodeTokens true value).reverse ++ .value :: .scalar (Form.of key).style key :: .key ::
        (opened start .blockMapping toks m ms).1)
      (start + 1) (opened start .blockMapping toks m ms).2.2 := by
  subst hp
  obtain ⟨q, hq, hkey⟩ := reads_key hsimple atGap_writeValue hm
  rw [opened_margin hm] at hkey
  exact hkey.to (hvalue (Nat.le_of_lt hq))

/-- An entry with a long key, given what its value takes. -/
theorem reads_longEntry {key : String} {value : Layout} {start column : Nat}
    {more next : List Char} (hp : p.column = start) (hm : m ≤ start + 1)
    (hahead : TokenAhead (writeBeside (start + 2) value ++ more))
    (hvalue : ∀ {q : Position} {ts : List Token} {ks : List Nat}, q.column = start + 2 →
      ReadsTo (between true (writeBeside (start + 2) value ++ more) q ts (start + 1) ks)
        column next ((nodeTokens false value).reverse ++ ts) (start + 1) ks) :
    ReadsTo (between true ('?' :: (spaces 1 ++ (writeText (start + 2) key ++ (spaces start ++
        ':' :: (spaces 1 ++ (writeBeside (start + 2) value ++ more)))))) p toks m ms) column next
      ((nodeTokens false value).reverse ++ .value :: .scalar (Form.of key).style key :: .key ::
        (opened start .blockMapping toks m ms).1)
      (start + 1) (opened start .blockMapping toks m ms).2.2 := by
  subst hp
  refine Reads.to (reads_longKey rfl hm) ?_
  rw [opened_margin hm]
  refine (reads_gap tokenAhead_writeText 1).to ?_
  -- The key ends in front of the indicator on the next line, which is not taken for a part of it.
  have hcolon : TokenAhead (':' :: (spaces 1 ++ (writeBeside (p.column + 2) value ++ more))) :=
    tokenAhead_cons (by decide) (by decide)
  obtain ⟨q, hq, hkey⟩ := reads_text (m := p.column + 1)
    (p := ⟨p.index + 1 + 1, p.line, p.column + 1 + 1⟩)
    (by intro _; show p.column + 1 ≠ p.column + 1 + 1 + 1; omega)
    (by show p.column + 1 ≤ p.column + 1 + 1 + 1; omega) (Nat.lt_succ_self _) hcolon
  refine hkey.to ?_
  rw [← hq]
  refine (reads_longValue rfl).to ((reads_gap ?_ 1).to ?_)
  · rw [hq]
    exact hahead
  · rw [hq]
    exact hvalue rfl

/-- An item, given what stands beside its dash. -/
theorem reads_listItem {item : Layout} {start column : Nat} {more next : List Char}
    (hp : p.column = start) (hm : m ≤ start + 1)
    (hahead : TokenAhead (writeBeside (start + 2) item ++ more))
    (hitem : ∀ {q : Position} {ts : List Token} {ks : List Nat}, q.column = start + 2 →
      ReadsTo (between true (writeBeside (start + 2) item ++ more) q ts (start + 1) ks)
        column next ((nodeTokens false item).reverse ++ ts) (start + 1) ks) :
    ReadsTo (between true ('-' :: (spaces 1 ++ (writeBeside (start + 2) item ++ more))) p toks m ms)
      column next
      ((nodeTokens false item).reverse ++ .item :: (opened start .blockSequence toks m ms).1)
      (start + 1) (opened start .blockSequence toks m ms).2.2 := by
  subst hp
  refine Reads.to (reads_item rfl hm) ?_
  rw [opened_margin hm]
  exact (reads_gap hahead 1).to (hitem rfl)

mutual

/-- A value behind the colon of a short key. -/
theorem reads_value (layout : Layout) {p : Position} {toks : List Token} {ms : List Nat}
    {indent column : Nat} {next : List Char} (hp : indent ≤ p.column) (hcolumn : column ≤ indent)
    (hnext : TokenAhead next) :
    ReadsTo (between false (writeValue indent layout ++ (spaces column ++ next)) p toks
        (indent + 1) ms)
      column next ((nodeTokens true layout).reverse ++ toks) (indent + 1) ms := by
  match layout with
  | .text value =>
    have hvalue : writeValue indent (.text value) ++ (spaces column ++ next) =
        spaces 1 ++ (writeText (indent + 1 + 1) value ++ (spaces column ++ next)) := by
      rw [writeValue]
      rfl
    rw [hvalue]
    refine (reads_gap tokenAhead_writeText 1).to (reads_text (by simp) ?_ ?_ hnext)
    · show indent + 1 ≤ p.column + 1 + 1
      omega
    · omega
  | .mapping [] =>
    have hvalue : writeValue indent (.mapping []) ++ (spaces column ++ next) =
        spaces 1 ++ ("\x7b\x7d\n".toList ++ (spaces column ++ next)) := by
      rw [writeValue]
      rfl
    rw [hvalue]
    refine (reads_gap (tokenAhead_cons (by decide) (by decide)) 1).to
      (reads_emptyMapping column (by simp) ?_ hnext)
    show indent + 1 ≤ p.column + 1 + 1
    omega
  | .mapping (entry :: entries) =>
    -- The entries have lines of their own, two columns further.
    have hvalue : writeValue indent (.mapping (entry :: entries)) ++ (spaces column ++ next) =
        '\n' :: (spaces (indent + 2) ++ (writeEntries (indent + 2) false (entry :: entries) ++
          (spaces column ++ next))) := by
      rw [writeValue]
      · rw [writeEntries_fresh, List.cons_append, List.append_assoc]
      · simp
    rw [hvalue]
    refine (reads_line tokenAhead_writeEntries (indent + 2)).to ?_
    have hentries := reads_entries (entry :: entries) (by simp) toks ms
      (p := ⟨p.index + 1 + (indent + 2), p.line + 1, indent + 2⟩) (m := indent + 1)
      (rfl : indent + 2 = indent + 2) (by omega) (Nat.le_trans hcolumn (Nat.le_add_right _ 2)) hnext
    exact reads_mapping (by simp) (Nat.le_succ _) (Nat.lt_succ_of_le hcolumn) hnext hentries true
  | .list [] =>
    have hvalue : writeValue indent (.list []) ++ (spaces column ++ next) =
        spaces 1 ++ ("[]\n".toList ++ (spaces column ++ next)) := by
      rw [writeValue]
      rfl
    rw [hvalue]
    refine (reads_gap (tokenAhead_cons (by decide) (by decide)) 1).to
      (reads_emptyList column (by simp) ?_ hnext)
    show indent + 1 ≤ p.column + 1 + 1
    omega
  | .list (item :: items) =>
    have hvalue : writeValue indent (.list (item :: items)) ++ (spaces column ++ next) =
        '\n' :: (spaces indent ++ (writeItems indent false (item :: items) ++
          (spaces column ++ next))) := by
      rw [writeValue]
      · rw [writeItems_fresh, List.cons_append, List.append_assoc]
      · simp
    rw [hvalue]
    refine (reads_line tokenAhead_writeItems indent).to ?_
    -- The list stands at the column of the mapping, which is open already.
    have hitems := reads_items (item :: items) (by simp) toks ms
      (p := ⟨p.index + 1 + indent, p.line + 1, indent⟩) (m := indent + 1)
      rfl (Nat.le_refl _) hcolumn hnext
    rw [opened_open] at hitems
    have htokens : nodeTokens true (.list (item :: items)) = itemTokens (item :: items) := by
      rw [nodeTokens]
      · rfl
      · simp
    rw [htokens]
    exact hitems

/-- A value behind a dash or behind the colon of a long key. -/
theorem reads_beside (layout : Layout) {p : Position} {toks : List Token} {m : Nat}
    {ms : List Nat} {column : Nat} {next : List Char} (hp : p.column = m + 1)
    (hcolumn : column < m) (hnext : TokenAhead next) :
    ReadsTo (between true (writeBeside (m + 1) layout ++ (spaces column ++ next)) p toks m ms)
      column next ((nodeTokens false layout).reverse ++ toks) m ms := by
  have hm : m ≤ p.column + 1 := by omega
  have hkey : true = true → m ≠ p.column + 1 := by
    intro _
    omega
  match layout with
  -- A collection with members opens at the column beside the indicator; what holds nothing is
  -- written in brackets.
  | .text value =>
    rw [writeBeside]
    exact reads_text hkey hm hcolumn hnext
  | .mapping [] =>
    rw [writeBeside]
    exact reads_emptyMapping column hkey hm hnext
  | .mapping (entry :: entries) =>
    rw [writeBeside]
    · have hcolumn' : column ≤ m + 1 := by omega
      have hentries := reads_entries (entry :: entries) (by simp) toks ms (m := m) hp (by omega)
        hcolumn' hnext
      exact reads_mapping (by simp) (Nat.le_succ m) hcolumn hnext hentries false
    · simp
  | .list [] =>
    rw [writeBeside]
    exact reads_emptyList column hkey hm hnext
  | .list (item :: items) =>
    rw [writeBeside]
    · have hcolumn' : column ≤ m + 1 := by omega
      have hitems := reads_items (item :: items) (by simp) toks ms (m := m) hp (by omega)
        hcolumn' hnext
      exact reads_list (by simp) (Nat.le_succ m) hcolumn hnext hitems
    · simp

/-- The entries of a mapping, the first of which opens it if need be. -/
theorem reads_entries (entries : List (String × Layout)) (hne : entries ≠ [])
    (toks : List Token) (ms : List Nat) {p : Position} {m start column : Nat} {next : List Char}
    (hp : p.column = start) (hm : m ≤ start + 1) (hcolumn : column ≤ start)
    (hnext : TokenAhead next) :
    ReadsTo (between true (writeEntries start false entries ++ (spaces column ++ next)) p toks m ms)
      column next ((entryTokens entries).reverse ++ (opened start .blockMapping toks m ms).1)
      (start + 1) (opened start .blockMapping toks m ms).2.2 := by
  match entries with
  | [] => exact absurd rfl hne
  | (key, value) :: rest =>
    -- One entry, whatever token comes next.
    have hentry : ∀ {column' : Nat} {next' : List Char}, column' ≤ start → TokenAhead next' →
        ReadsTo (between true (writeEntries start false [(key, value)] ++
            (spaces column' ++ next')) p toks m ms) column' next'
          ((entryTokens [(key, value)]).reverse ++ (opened start .blockMapping toks m ms).1)
          (start + 1) (opened start .blockMapping toks m ms).2.2 := by
      intro column' next' hcolumn' hnext'
      by_cases hsimple : isSimpleKey key = true
      · -- A short key stands in front of its colon.
        have hchars : writeEntries start false [(key, value)] ++ (spaces column' ++ next') =
            (Form.of key).write start key ++ ':' ::
              (writeValue start value ++ (spaces column' ++ next')) := by
          simp [writeEntries, hsimple]
        have htokens : (entryTokens [(key, value)]).reverse ++
            (opened start .blockMapping toks m ms).1 =
              (nodeTokens true value).reverse ++ .value :: .scalar (Form.of key).style key ::
                .key :: (opened start .blockMapping toks m ms).1 := by
          simp [entryTokens, hsimple]
        rw [hchars, htokens]
        exact reads_shortEntry hsimple hp hm fun hq => reads_value value hq hcolumn' hnext'
      · have hchars : writeEntries start false [(key, value)] ++ (spaces column' ++ next') =
            '?' :: (spaces 1 ++ (writeText (start + 2) key ++ (spaces start ++
              ':' :: (spaces 1 ++ (writeBeside (start + 2) value ++
                (spaces column' ++ next')))))) := by
          simp [writeEntries, hsimple, spaces]
        have htokens : (entryTokens [(key, value)]).reverse ++
            (opened start .blockMapping toks m ms).1 =
              (nodeTokens false value).reverse ++ .value :: .scalar (Form.of key).style key ::
                .key :: (opened start .blockMapping toks m ms).1 := by
          simp [entryTokens, hsimple]
        rw [hchars, htokens]
        exact reads_longEntry hp hm tokenAhead_writeBeside fun hq =>
          reads_beside value hq (Nat.lt_succ_of_le hcolumn') hnext'
    match rest with
    | [] => exact hentry hcolumn hnext
    | entry :: rest =>
      have hchars : writeEntries start false ((key, value) :: entry :: rest) ++
          (spaces column ++ next) = writeEntries start false [(key, value)] ++ (spaces start ++
            (writeEntries start false (entry :: rest) ++ (spaces column ++ next))) := by
        rw [writeEntries, writeEntries_fresh, writeEntries]
        simp [writeEntries]
      have htokens : (entryTokens ((key, value) :: entry :: rest)).reverse ++
          (opened start .blockMapping toks m ms).1 =
            (entryTokens (entry :: rest)).reverse ++ ((entryTokens [(key, value)]).reverse ++
              (opened start .blockMapping toks m ms).1) := by
        rw [entryTokens, entryTokens]
        simp [entryTokens]
      rw [hchars, htokens]
      -- The other entries find the mapping opened already.
      obtain ⟨q, hq, hreads⟩ := hentry (Nat.le_refl start) tokenAhead_writeEntries
      have hrest := reads_entries (entry :: rest) (by simp)
        ((entryTokens [(key, value)]).reverse ++ (opened start .blockMapping toks m ms).1)
        (opened start .blockMapping toks m ms).2.2 hq (Nat.le_refl _) hcolumn hnext
      rw [opened_open] at hrest
      exact hreads.to hrest

/-- The items of a list, the first of which opens it if need be. -/
theorem reads_items (items : List Layout) (hne : items ≠ [])
    (toks : List Token) (ms : List Nat) {p : Position} {m start column : Nat} {next : List Char}
    (hp : p.column = start) (hm : m ≤ start + 1) (hcolumn : column ≤ start)
    (hnext : TokenAhead next) :
    ReadsTo (between true (writeItems start false items ++ (spaces column ++ next)) p toks m ms)
      column next ((itemTokens items).reverse ++ (opened start .blockSequence toks m ms).1)
      (start + 1) (opened start .blockSequence toks m ms).2.2 := by
  match items with
  | [] => exact absurd rfl hne
  | item :: rest =>
    -- One item, whatever token comes next.
    have hitem : ∀ {column' : Nat} {next' : List Char}, column' ≤ start → TokenAhead next' →
        ReadsTo (between true ('-' :: (spaces 1 ++ (writeBeside (start + 2) item ++
            (spaces column' ++ next')))) p toks m ms) column' next'
          ((nodeTokens false item).reverse ++ .item :: (opened start .blockSequence toks m ms).1)
          (start + 1) (opened start .blockSequence toks m ms).2.2 := by
      intro column' next' hcolumn' hnext'
      exact reads_listItem hp hm tokenAhead_writeBeside fun hq =>
        reads_beside item hq (Nat.lt_succ_of_le hcolumn') hnext'
    match rest with
    | [] =>
      have hchars : writeItems start false [item] ++ (spaces column ++ next) =
          '-' :: (spaces 1 ++ (writeBeside (start + 2) item ++ (spaces column ++ next))) := by
        simp [writeItems, spaces]
      have htokens : (itemTokens [item]).reverse ++ (opened start .blockSequence toks m ms).1 =
          (nodeTokens false item).reverse ++ .item ::
            (opened start .blockSequence toks m ms).1 := by
        simp [itemTokens]
      rw [hchars, htokens]
      exact hitem hcolumn hnext
    | second :: rest =>
      have hchars : writeItems start false (item :: second :: rest) ++
          (spaces column ++ next) = '-' :: (spaces 1 ++ (writeBeside (start + 2) item ++
            (spaces start ++ (writeItems start false (second :: rest) ++
              (spaces column ++ next))))) := by
        rw [writeItems, writeItems_fresh]
        simp [spaces]
      have htokens : (itemTokens (item :: second :: rest)).reverse ++
          (opened start .blockSequence toks m ms).1 =
            (itemTokens (second :: rest)).reverse ++ ((nodeTokens false item).reverse ++
              .item :: (opened start .blockSequence toks m ms).1) := by
        rw [itemTokens]
        simp
      rw [hchars, htokens]
      -- The other items find the sequence opened already.
      obtain ⟨q, hq, hreads⟩ := hitem (Nat.le_refl start) tokenAhead_writeItems
      have hrest := reads_items (second :: rest) (by simp)
        ((nodeTokens false item).reverse ++
          .item :: (opened start .blockSequence toks m ms).1)
        (opened start .blockSequence toks m ms).2.2 hq (Nat.le_refl _) hcolumn hnext
      rw [opened_open] at hrest
      exact hreads.to hrest

end

end Reading

/-! ### The characters of a document -/

theorem isPrintable_of_all {cs : List Char} (h : cs.all isPrintable = true) :
    ∀ d ∈ cs, isPrintable d = true :=
  List.all_eq_true.mp h

theorem isPrintable_writeText {text : String} {indent : Nat} :
    ∀ d ∈ writeText indent text, isPrintable d = true := by
  unfold writeText
  simp only []
  split
  · exact isPrintable_write
  · rw [List.forall_mem_append]
    exact ⟨isPrintable_write, isPrintable_of_all (by decide)⟩

theorem isPrintable_spaces {n : Nat} : ∀ d ∈ spaces n, isPrintable d = true := by
  intro d hd
  rw [mem_spaces hd]
  decide

mutual

theorem isPrintable_writeValue (indent : Nat) (layout : Layout) :
    ∀ d ∈ writeValue indent layout, isPrintable d = true := by
  match layout with
  | .text value =>
    rw [writeValue, List.forall_mem_cons]
    exact ⟨by decide, isPrintable_writeText⟩
  | .mapping [] =>
    rw [writeValue]
    exact isPrintable_of_all (by decide)
  | .mapping (entry :: entries) =>
    rw [writeValue, List.forall_mem_cons]
    · exact ⟨by decide, isPrintable_writeEntries _ _ (entry :: entries)⟩
    · simp
  | .list [] =>
    rw [writeValue]
    exact isPrintable_of_all (by decide)
  | .list (item :: items) =>
    rw [writeValue, List.forall_mem_cons]
    · exact ⟨by decide, isPrintable_writeItems _ _ (item :: items)⟩
    · simp

theorem isPrintable_writeBeside (indent : Nat) (layout : Layout) :
    ∀ d ∈ writeBeside indent layout, isPrintable d = true := by
  match layout with
  | .text value =>
    rw [writeBeside]
    exact isPrintable_writeText
  | .mapping [] =>
    rw [writeBeside]
    exact isPrintable_of_all (by decide)
  | .mapping (entry :: entries) =>
    rw [writeBeside]
    · exact isPrintable_writeEntries _ _ (entry :: entries)
    · simp
  | .list [] =>
    rw [writeBeside]
    exact isPrintable_of_all (by decide)
  | .list (item :: items) =>
    rw [writeBeside]
    · exact isPrintable_writeItems _ _ (item :: items)
    · simp

theorem isPrintable_writeEntries (indent : Nat) (fresh : Bool) (entries : List (String × Layout)) :
    ∀ d ∈ writeEntries indent fresh entries, isPrintable d = true := by
  match entries with
  | [] => simp [writeEntries]
  | (key, value) :: rest =>
    have hspaces : ∀ d ∈ (if fresh then spaces indent else []), isPrintable d = true := by
      split
      · exact isPrintable_spaces
      · simp
    rw [writeEntries]
    simp only [List.forall_mem_append]
    refine ⟨⟨hspaces, ?_⟩, isPrintable_writeEntries _ _ rest⟩
    split
    · simp only [List.forall_mem_append, List.forall_mem_cons]
      exact ⟨isPrintable_write, by decide, isPrintable_writeValue _ value⟩
    · simp only [List.forall_mem_append, List.forall_mem_cons]
      exact ⟨⟨⟨by decide, by decide, isPrintable_writeText⟩, isPrintable_spaces⟩, by decide,
        by decide, isPrintable_writeBeside _ value⟩

theorem isPrintable_writeItems (indent : Nat) (fresh : Bool) (items : List Layout) :
    ∀ d ∈ writeItems indent fresh items, isPrintable d = true := by
  match items with
  | [] => simp [writeItems]
  | item :: rest =>
    have hspaces : ∀ d ∈ (if fresh then spaces indent else []), isPrintable d = true := by
      split
      · exact isPrintable_spaces
      · simp
    rw [writeItems]
    simp only [List.forall_mem_append, List.forall_mem_cons]
    exact ⟨⟨hspaces, by decide, by decide, isPrintable_writeBeside _ item⟩,
      isPrintable_writeItems _ _ rest⟩

end

/-- A document starts with a token of its own, not with a mark of the byte order. -/
theorem start_eq {cs : List Char} (h : ∀ d ∈ cs, isPrintable d = true) :
    Reading.start cs = Reading.between true cs ⟨0, 0, 0⟩ [] 0 [] := by
  cases cs with
  | nil => rfl
  | cons c cs =>
    have hc : c ≠ '\uFEFF' := by
      rintro rfl
      exact absurd (h _ List.mem_cons_self) (by decide)
    simp [Reading.start, Reading.between, hc]

/-- What is written of a collection is read up to the end of the stream. -/
theorem reads_document {layout : Layout} (h : ∀ text, layout ≠ .text text) :
    ∃ t, Reading.Reads (Reading.between true (writeBeside 0 layout) ⟨0, 0, 0⟩ [] 0 []) t ∧
      t.step = .ok (.inr (nodeTokens false layout ++ [.streamEnd])) := by
  match layout, h with
  | .text text, h => exact absurd rfl (h text)
  | .mapping [], _ =>
    obtain ⟨p, -, hreads⟩ := Reading.reads_emptyMapping 0 (p := ⟨0, 0, 0⟩)
      (m := 0) (by simp) (Nat.zero_le _) tokenAhead_nil
    exact ⟨_, hreads, Reading.step_end_outside⟩
  | .list [], _ =>
    obtain ⟨p, -, hreads⟩ := Reading.reads_emptyList 0 (p := ⟨0, 0, 0⟩)
      (m := 0) (by simp) (Nat.zero_le _) tokenAhead_nil
    exact ⟨_, hreads, Reading.step_end_outside⟩
  -- A collection with members is open up to the end of the stream, which closes it.
  | .mapping (entry :: entries), _ =>
    obtain ⟨p, -, hreads⟩ := Reading.reads_entries (entry :: entries) (by simp) [] []
      (p := ⟨0, 0, 0⟩) (m := 0) rfl (Nat.zero_le _) (Nat.le_refl _) tokenAhead_nil
    have htokens : nodeTokens false (.mapping (entry :: entries)) ++ [.streamEnd] =
        ((entryTokens (entry :: entries)).reverse ++ [Token.blockMapping]).reverse ++
          [.blockEnd, .streamEnd] := by
      rw [nodeTokens] <;> simp
    rw [htokens, writeBeside]
    · rw [← List.append_nil (writeEntries 0 false (entry :: entries))]
      exact ⟨_, hreads, Reading.step_end⟩
    · simp
  | .list (item :: items), _ =>
    obtain ⟨p, -, hreads⟩ := Reading.reads_items (item :: items) (by simp) [] []
      (p := ⟨0, 0, 0⟩) (m := 0) rfl (Nat.zero_le _) (Nat.le_refl _) tokenAhead_nil
    have htokens : nodeTokens false (.list (item :: items)) ++ [.streamEnd] =
        ((itemTokens (item :: items)).reverse ++ [Token.blockSequence]).reverse ++
          [.blockEnd, .streamEnd] := by
      rw [nodeTokens] <;> simp
    rw [htokens, writeBeside]
    · rw [← List.append_nil (writeItems 0 false (item :: items))]
      exact ⟨_, hreads, Reading.step_end⟩
    · simp

/-- A collection is written as its tokens. -/
theorem tokens_print {layout : Layout} (h : ∀ text, layout ≠ .text text) :
    tokens (print layout) = .ok (nodeTokens false layout ++ [.streamEnd]) := by
  have hprintable := isPrintable_writeBeside 0 layout
  have hallowed : (print layout).toList.all isAllowed = true := by
    rw [print, String.toList_ofList, List.all_eq_true]
    exact fun c hc => isAllowed_of_isPrintable (hprintable c hc)
  obtain ⟨t, hreads, hstep⟩ := reads_document h
  rw [tokens]
  simp only [hallowed, if_true]
  rw [print, String.toList_ofList, start_eq hprintable]
  exact hreads.run_eq hstep (Nat.lt_succ_self _)

end DeploymentBackup.Yaml
