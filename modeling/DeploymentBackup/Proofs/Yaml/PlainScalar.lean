import DeploymentBackup.Proofs.Yaml.DoubleQuoted
import DeploymentBackup.Yaml.Scalar.Plain

namespace DeploymentBackup.Yaml

/-!
# Texts without quotes

A text stands without quotes when nothing in it could end a plain scalar: no colon before a
blank, no number sign behind one, no blank at either end.

* `PlainText` — the texts that are written without quotes.
* `PlainContext.Ends` — what follows a plain scalar and does not belong to it.
* `Plain.read_append` — the text is read back, together with the gap behind it.
-/

/-- No colon of the text stands before a blank or at the end. -/
def ColonSafe (cs : List Char) : Prop :=
  ∀ pre rest, cs = pre ++ ':' :: rest → atGap rest = false

/-- No number sign of the text stands behind a blank. -/
def HashSafe (cs : List Char) : Prop :=
  ∀ pre c rest, cs = pre ++ c :: '#' :: rest → isGap c = false

theorem ColonSafe.append {cs ds : List Char} (h : ColonSafe (cs ++ ds)) : ColonSafe ds := by
  rintro pre rest rfl
  exact h (cs ++ pre) rest (by rw [List.append_assoc])

theorem HashSafe.append {cs ds : List Char} (h : HashSafe (cs ++ ds)) : HashSafe ds := by
  rintro pre c rest rfl
  exact h (cs ++ pre) c rest (by rw [List.append_assoc])

theorem hasIndicatorInside_append {pre cs : List Char}
    (h : hasIndicatorInside (pre ++ cs) = false) : hasIndicatorInside cs = false := by
  induction pre with
  | nil => exact h
  | cons c pre ih =>
    refine ih ?_
    rw [List.cons_append] at h
    cases hcs : pre ++ cs with
    | nil => rfl
    | cons d rest =>
      rw [hcs, hasIndicatorInside, Bool.or_eq_false_iff] at h
      exact h.2

theorem colonSafe_of_indicators {cs : List Char} (hstart : hasIndicatorAtStart cs = false)
    (hinside : hasIndicatorInside cs = false) : ColonSafe cs := by
  rintro pre rest rfl
  rcases List.eq_nil_or_concat pre with rfl | ⟨pre, c, rfl⟩
  · rw [List.nil_append, hasIndicatorAtStart] at hstart
    · simpa using (Bool.or_eq_false_iff.mp hstart).2
    · simp
    · simp
  · rw [List.concat_eq_append, List.append_assoc] at hinside
    have := hasIndicatorInside_append hinside
    rw [List.singleton_append, hasIndicatorInside] at this
    simp only [Bool.or_eq_false_iff] at this
    simpa using this.1.2

theorem hashSafe_of_inside {cs : List Char} (hinside : hasIndicatorInside cs = false) :
    HashSafe cs := by
  rintro pre c rest rfl
  have := hasIndicatorInside_append hinside
  rw [hasIndicatorInside] at this
  simp only [Bool.or_eq_false_iff] at this
  simpa using this.1.1

/-- The texts that can stand without quotes. -/
structure PlainText (cs : List Char) : Prop where
  ne_nil : cs ≠ []
  printable : ∀ c ∈ cs, isPrintable c = true
  noBreak : NoBreak cs
  first : cs.head? ≠ some ' '
  last : cs.getLast? ≠ some ' '
  colon : ColonSafe cs
  hash : HashSafe cs

/-! ### Words -/

/-- What stands behind a plain scalar in a block collection: a gap that no line of the
    scalar follows, or the colon of a key. -/
structure PlainContext.Ends (ctx : PlainContext) (gap next : List Char) : Prop where
  isGap : ∀ c ∈ gap, Yaml.isGap c = true
  noGapAhead : NoGapAhead next
  noWord : plainWord false (gap ++ next) = .ok []
  noTab : tabIndented ctx.margin none gap = false
  noMore : gap = [] ∨ ctx.continues gap next = false

theorem atGap_append_of_false {cs ds : List Char} (h : atGap cs = false) :
    atGap (cs ++ ds) = false := by
  cases cs with
  | nil => simp [atGap] at h
  | cons c cs => exact h

/-- A word is read up to where none goes on. -/
theorem plainWord_append {word rest more : List Char} (hword : ∀ c ∈ word, isGap c = false)
    (hcolon : ColonSafe (word ++ rest)) (hrest : plainWord false (rest ++ more) = .ok []) :
    plainWord false (word ++ (rest ++ more)) = .ok word := by
  induction word with
  | nil => exact hrest
  | cons c word ih =>
    have hnotEnd : ¬ ((decide (c = ':') && atGap (word ++ (rest ++ more))) = true) := by
      by_cases hc : c = ':'
      · subst hc
        have hafter : atGap (word ++ rest) = false := hcolon [] (word ++ rest) rfl
        rw [← List.append_assoc, atGap_append_of_false hafter]
        simp
      · simp [hc]
    have hsafe : ColonSafe ([c] ++ (word ++ rest)) := hcolon
    have htail := ih (fun d hd => hword d (List.mem_cons_of_mem _ hd)) hsafe.append
    rw [List.cons_append, plainWord, if_neg (by simp [hword c List.mem_cons_self]),
      if_neg (by simp), if_neg hnotEnd, if_neg (by simp), htail]
    rfl

theorem tabIndented_spaces {margin : Nat} {column : Option Nat} (n : Nat) :
    tabIndented margin column (spaces n) = false := by
  induction n generalizing column with
  | zero => rfl
  | succ n ih =>
    rw [show spaces (n + 1) = ' ' :: spaces n from rfl]
    cases column with
    | none => rw [tabIndented, if_neg (by decide), ih]
    | some column => rw [tabIndented, if_neg (by decide), if_neg (by simp), ih]

/-- A line that is indented less does not belong to the scalar. -/
theorem PlainContext.ends_line {margin column : Nat} {next : List Char} (h : column < margin)
    (hnext : NoGapAhead next) : Ends ⟨false, margin⟩ ('\n' :: spaces column) next where
  isGap := by
    intro c hc
    rcases List.mem_cons.mp hc with rfl | hc
    · decide
    · exact isGap_spaces _ c hc
  noGapAhead := hnext
  noWord := by
    rw [List.cons_append, plainWord, if_pos (by decide)]
  noTab := by
    rw [tabIndented, if_pos (by decide)]
    exact tabIndented_spaces column
  noMore := by
    refine .inr ?_
    have hline : lastLine ('\n' :: spaces column) = spaces column :=
      lastLine_break_append [] (by decide) (noBreak_spaces column)
    have hbreak : ('\n' :: spaces column).any isBreak = true := by
      rw [List.any_cons]
      rfl
    rw [continues, hline, length_spaces, hbreak]
    simp [h]

/-- The colon of a key does not belong to the scalar. -/
theorem PlainContext.ends_colon {ctx : PlainContext} {rest : List Char} (h : atGap rest = true) :
    Ends ctx [] (':' :: rest) where
  isGap := by simp
  noGapAhead := noGapAhead_cons.mpr (by decide)
  noWord := by
    rw [List.nil_append, plainWord, if_neg (by decide), if_neg (by simp), if_pos (by simp [h])]
  noTab := rfl
  noMore := .inl rfl

/-! ### The whole scalar -/

/-- The first word of a text and the spaces behind it. -/
theorem PlainText.front {cs : List Char} (h : PlainText cs) :
    ∃ word n rest, cs = word ++ (spaces n ++ rest) ∧ word ≠ [] ∧ (∀ c ∈ word, isGap c = false) ∧
      NoGapAhead rest ∧ (rest = [] → n = 0) ∧ (n = 0 → rest = []) := by
  have hsplit := List.takeWhile_append_dropWhile (p := (! isGap ·)) (l := cs)
  obtain ⟨n, rest, hspaces, hrest⟩ := exists_spaces (cs.dropWhile (! isGap ·))
  have hgap : ∀ c ∈ cs, c ≠ ' ' → isGap c = false := fun c hc hne =>
    isGap_of_isPrintable (h.printable c hc) (h.noBreak c hc) hne
  have hsub : ∀ c ∈ rest, c ∈ cs := by
    intro c hc
    rw [← hsplit, hspaces]
    exact List.mem_append_right _ (List.mem_append_right _ hc)
  refine ⟨cs.takeWhile (! isGap ·), n, rest, ?_, ?_, ?_, ?_, ?_, ?_⟩
  · rw [← hspaces, hsplit]
  · obtain ⟨c, ds, hcs⟩ := List.exists_cons_of_ne_nil h.ne_nil
    have hc : isGap c = false := by
      refine hgap c (by rw [hcs]; exact List.mem_cons_self) ?_
      rintro rfl
      exact h.first (by rw [hcs]; rfl)
    rw [hcs, List.takeWhile_cons_of_pos (by simp [hc])]
    simp
  · intro c hc
    simpa using List.mem_takeWhile_imp hc
  · intro c hc
    refine hgap c (hsub c (List.mem_of_mem_head? hc)) ?_
    rintro rfl
    exact hrest hc
  · rintro rfl
    by_contra hn
    obtain ⟨n, rfl⟩ := Nat.exists_eq_succ_of_ne_zero hn
    refine h.last ?_
    have hend : spaces (n + 1) = spaces n ++ [' '] := List.replicate_succ'
    rw [← hsplit, hspaces, List.append_nil, hend, ← List.append_assoc, List.getLast?_concat]
  · rintro rfl
    rw [show spaces 0 = [] from rfl, List.nil_append] at hspaces
    cases hrest' : rest with
    | nil => rfl
    | cons d ds =>
      rw [hrest'] at hspaces hrest
      -- The text behind the word starts with a gap.
      have hd := List.head_dropWhile_not (p := (! isGap ·)) (l := cs) (by simp [hspaces])
      have hgapd : isGap d = true := by simpa [hspaces] using hd
      have hmem : d ∈ cs := hsub d (by rw [hrest']; exact List.mem_cons_self)
      rw [hgap d hmem (by simpa using hrest)] at hgapd
      simp at hgapd

theorem PlainText.append {pre cs : List Char} (h : PlainText (pre ++ cs)) (hne : cs ≠ [])
    (hfirst : NoGapAhead cs) : PlainText cs where
  ne_nil := hne
  printable := fun c hc => h.printable c (List.mem_append_right _ hc)
  noBreak := fun c hc => h.noBreak c (List.mem_append_right _ hc)
  first := by
    intro hc
    exact absurd (hfirst ' ' hc) (by decide)
  last := by
    obtain ⟨ds, c, rfl⟩ := List.eq_nil_or_concat cs |>.resolve_left hne
    have := h.last
    rw [List.concat_eq_append, ← List.append_assoc, List.getLast?_concat] at this
    rwa [List.concat_eq_append, List.getLast?_concat]
  colon := h.colon.append
  hash := h.hash.append

/-- A text without quotes is read back, and the gap behind it is taken with it. -/
theorem Plain.read_append {margin : Nat} {cs gap next : List Char} (h : PlainText cs)
    (hends : PlainContext.Ends ⟨false, margin⟩ gap next) :
    Plain.read ⟨false, margin⟩ (cs ++ (gap ++ next)) = .ok ⟨cs, cs ++ gap, gap.any isBreak⟩ := by
  induction hlen : cs.length using Nat.strong_induction_on generalizing cs with
  | h len ih =>
    obtain ⟨word, n, rest, hcs, hne, hword, hrest, hlast, hnone⟩ := h.front
    by_cases hn : n = 0
    · -- The last word.
      have hrest := hnone hn
      subst hn hrest
      rw [show spaces 0 = [] from rfl, List.nil_append, List.append_nil] at hcs
      subst hcs
      have hread : plainWord false (cs ++ (gap ++ next)) = .ok cs := by
        show plainWord false (cs ++ ([] ++ (gap ++ next))) = .ok cs
        exact plainWord_append hword (by simpa using h.colon) hends.noWord
      have hstop : ¬ (gap ≠ [] ∧ cs ≠ [] ∧
          PlainContext.continues ⟨false, margin⟩ gap next = true) := by
        rintro ⟨hg, -, hc⟩
        rcases hends.noMore with hm | hm
        · exact hg hm
        · rw [hm] at hc
          simp at hc
      rw [Plain.read]
      simp only [hread, List.drop_left, takeWhile_gap hends.isGap hends.noGapAhead,
        dropWhile_gap hends.isGap hends.noGapAhead, hends.noTab]
      rw [dif_neg hstop]
      simp
    · -- A word, a run of spaces, and a text that starts with a word.
      have hrestne : rest ≠ [] := fun h0 => hn (hlast h0)
      have htext : PlainText rest := by
        rw [hcs, ← List.append_assoc] at h
        exact h.append hrestne hrest
      have hshort : rest.length < len := by
        have : 0 < word.length := List.length_pos_iff.mpr hne
        rw [← hlen, hcs, List.length_append, List.length_append]
        omega
      have hmore := ih rest.length hshort htext rfl
      have hread : plainWord false (word ++ (spaces n ++ (rest ++ (gap ++ next)))) = .ok word := by
        rw [← List.append_assoc (spaces n)]
        refine plainWord_append hword (hcs ▸ h.colon) ?_
        obtain ⟨n, rfl⟩ := Nat.exists_eq_succ_of_ne_zero hn
        rw [show spaces (n + 1) = ' ' :: spaces n from rfl, List.cons_append, List.cons_append,
          plainWord, if_pos isGap_space]
      have hahead : NoGapAhead (rest ++ (gap ++ next)) := by
        obtain ⟨d, ds, rfl⟩ := List.exists_cons_of_ne_nil hrestne
        rw [List.cons_append, noGapAhead_cons]
        exact noGapAhead_cons.mp hrest
      -- Behind a space, a `#` would start a comment; the text holds none.
      have hnothash : (rest ++ (gap ++ next)).head? ≠ some '#' := by
        obtain ⟨d, ds, rfl⟩ := List.exists_cons_of_ne_nil hrestne
        intro hd
        have hd : d = '#' := by simpa using hd
        subst hd
        obtain ⟨n, rfl⟩ := Nat.exists_eq_succ_of_ne_zero hn
        have := h.hash (word ++ spaces n) ' ' ds (by
          rw [hcs, show spaces (n + 1) = spaces n ++ [' '] from List.replicate_succ']
          simp)
        exact absurd this (by decide)
      have hsome := spaces_ne_nil hn
      have hcontinues : PlainContext.continues ⟨false, margin⟩ (spaces n)
          (rest ++ (gap ++ next)) = true := by
        have hany : (spaces n).any isBreak = false := by
          rw [List.any_eq_false]
          intro c hc
          simp [noBreak_spaces n c hc]
        rw [PlainContext.continues, hany]
        simpa using hnothash
      rw [hcs, List.append_assoc, List.append_assoc, Plain.read]
      simp only [hread, List.drop_left, takeWhile_gap (isGap_spaces n) hahead,
        dropWhile_gap (isGap_spaces n) hahead, tabIndented_spaces]
      rw [dif_pos ⟨hsome, hne, hcontinues⟩]
      simp only [hmore, foldGap_of_noBreak (noBreak_spaces n), List.append_assoc]
      simp [hrestne]

end DeploymentBackup.Yaml
