import DeploymentBackup.Proofs.Yaml.DoubleQuoted

namespace DeploymentBackup.Yaml

/-!
# Texts between single quotes

Between single quotes a text may hold separators, behind which the printer indents the line.
That works because no space stands beside a separator in such a text.

* `SingleText` — the texts that are written between single quotes.
* `singleBody?_singleChars` — the closing quote is found.
* `singleText_singleChars` — the text is read back.
-/

/-- The texts that can stand between single quotes: printable, without a line feed, and with
    no space beside a line break. -/
structure SingleText (cs : List Char) : Prop where
  printable : ∀ c ∈ cs, isPrintable c = true
  noLineFeed : '\n' ∉ cs
  behind : spaceBehindBreak cs = false
  before : spaceBeforeBreak cs = false

theorem spaceBehindBreak_tail {c : Char} {cs : List Char} (h : spaceBehindBreak (c :: cs) = false) :
    spaceBehindBreak cs = false := by
  cases cs with
  | nil => rfl
  | cons d cs =>
    rw [spaceBehindBreak, Bool.or_eq_false_iff] at h
    exact h.2

theorem spaceBeforeBreak_tail {c : Char} {cs : List Char} (h : spaceBeforeBreak (c :: cs) = false) :
    spaceBeforeBreak cs = false := by
  by_cases hc : c = ' '
  · subst hc
    cases cs with
    | nil => rfl
    | cons d cs =>
      rw [spaceBeforeBreak, Bool.or_eq_false_iff] at h
      exact h.2
  · rw [spaceBeforeBreak] at h
    · exact h
    · rintro d rest rfl
      exact absurd rfl hc

theorem SingleText.tail {c : Char} {cs : List Char} (h : SingleText (c :: cs)) : SingleText cs where
  printable := fun d hd => h.printable d (List.mem_cons_of_mem _ hd)
  noLineFeed := fun hn => h.noLineFeed (List.mem_cons_of_mem _ hn)
  behind := spaceBehindBreak_tail h.behind
  before := spaceBeforeBreak_tail h.before

theorem SingleText.append {cs ds : List Char} (h : SingleText (cs ++ ds)) : SingleText ds := by
  induction cs with
  | nil => exact h
  | cons c cs ih => exact ih h.tail

/-- The only line breaks of such a text are separators. -/
theorem SingleText.isSeparator {cs : List Char} (h : SingleText cs) {c : Char} (hc : c ∈ cs)
    (hbreak : isBreak c = true) : isSeparator c = true := by
  simp only [isBreak, Bool.or_eq_true, decide_eq_true_eq] at hbreak
  rcases hbreak with (((rfl | rfl) | rfl) | rfl) | rfl
  · exact absurd (h.printable _ hc) (by decide)
  · exact absurd hc h.noLineFeed
  · exact absurd (h.printable _ hc) (by decide)
  · decide
  · decide

/-! ### The closing quote -/

theorem singleBody?_word {c : Char} {rest : List Char} (hc : c ≠ '\'') :
    singleBody? (c :: rest) = (singleBody? rest).map fun (body, rest) => (c :: body, rest) := by
  rw [singleBody?]
  · rintro ds rfl
    exact absurd rfl hc
  · rintro rfl
    exact absurd rfl hc

theorem singleBody?_spaces (n : Nat) (rest : List Char) :
    singleBody? (spaces n ++ rest) =
      (singleBody? rest).map fun (body, rest) => (spaces n ++ body, rest) := by
  induction n with
  | zero => simp [spaces]
  | succ n ih =>
    rw [show spaces (n + 1) = ' ' :: spaces n from rfl, List.cons_append,
      singleBody?_word (by decide), ih, Option.map_map]
    rfl

theorem singleBody?_end {rest : List Char} (h : rest.head? ≠ some '\'') :
    singleBody? ('\'' :: rest) = some ([], rest) := by
  cases rest with
  | nil => rfl
  | cons d rest =>
    have hd : d ≠ '\'' := by simpa using h
    rw [singleBody?]
    rintro ds hds
    exact absurd (List.cons.inj hds).1 hd

/-- The part up to the closing quote is what was written. -/
theorem singleBody?_singleChars (indent : Nat) (broken : Bool) (cs : List Char) {rest : List Char}
    (h : rest.head? ≠ some '\'') :
    singleBody? (singleChars indent broken cs ++ '\'' :: rest) =
      some (singleChars indent broken cs, rest) := by
  -- The indentation behind a line break is read with the text.
  have hindent : ∀ (b : Bool) (ds : List Char), singleBody? (ds ++ '\'' :: rest) = some (ds, rest) →
      singleBody? ((if b then spaces indent else []) ++ ds ++ '\'' :: rest) =
        some ((if b then spaces indent else []) ++ ds, rest) := by
    intro b ds hds
    cases b with
    | false => exact hds
    | true =>
      rw [if_pos rfl, List.append_assoc, singleBody?_spaces, hds]
      rfl
  induction cs generalizing broken with
  | nil =>
    rw [singleChars]
    have := hindent broken [] (singleBody?_end h)
    simpa using this
  | cons c cs ih =>
    rw [singleChars]
    split
    · rename_i hbreak
      have hc : c ≠ '\'' := by
        rintro rfl
        exact absurd hbreak (by decide)
      rw [List.cons_append, singleBody?_word hc, ih]
      rfl
    · rw [List.append_assoc ((if broken then spaces indent else []))]
      refine hindent broken _ ?_
      split
      · show singleBody? ('\'' :: '\'' :: (singleChars indent false cs ++ '\'' :: rest)) = _
        rw [singleBody?, ih]
        rfl
      · rename_i hc
        rw [List.singleton_append, List.cons_append, singleBody?_word hc, ih]
        rfl

/-! ### Runs of blanks -/

theorem spaceBeforeBreak_spaces {n : Nat} {b : Char} (rest : List Char) (hn : n ≠ 0)
    (hb : isBreak b = true) : spaceBeforeBreak (spaces n ++ b :: rest) = true := by
  induction n with
  | zero => exact absurd rfl hn
  | succ n ih =>
    rw [show spaces (n + 1) = ' ' :: spaces n from rfl, List.cons_append]
    cases n with
    | zero =>
      rw [show spaces 0 = [] from rfl, List.nil_append, spaceBeforeBreak, hb, Bool.true_or]
    | succ n =>
      have := ih (by omega)
      rw [show spaces (n + 1) = ' ' :: spaces n from rfl, List.cons_append] at this ⊢
      rw [spaceBeforeBreak, this, Bool.or_true]

theorem spaceBehindBreak_breaks {bs : List Char} (rest : List Char) (hne : bs ≠ [])
    (hbs : ∀ b ∈ bs, isBreak b = true) : spaceBehindBreak (bs ++ ' ' :: rest) = true := by
  induction bs with
  | nil => exact absurd rfl hne
  | cons b bs ih =>
    rw [List.cons_append]
    cases bs with
    | nil =>
      rw [List.nil_append, spaceBehindBreak, hbs b List.mem_cons_self]
      rfl
    | cons d bs =>
      have := ih (by simp) fun e he => hbs e (List.mem_cons_of_mem _ he)
      rw [List.cons_append] at this ⊢
      rw [spaceBehindBreak, this, Bool.or_true]

/-- A gap at the front of such a text is a run of spaces or a run of separators, never both. -/
theorem SingleText.front {cs : List Char} (h : SingleText cs) :
    (∃ n rest, cs = spaces n ++ rest ∧ NoGapAhead rest) ∨
      ∃ bs rest, cs = bs ++ rest ∧ bs ≠ [] ∧ (∀ b ∈ bs, Yaml.isSeparator b = true) ∧
        NoGapAhead rest := by
  cases hcs : cs with
  | nil => exact .inl ⟨0, [], rfl, noGapAhead_nil⟩
  | cons c ds =>
    by_cases hbreak : isBreak c = true
    · have hruns := List.takeWhile_append_dropWhile (p := isBreak) (l := cs)
      have hbs : ∀ b ∈ cs.takeWhile isBreak, isBreak b = true := fun b hb =>
        List.mem_takeWhile_imp hb
      have hne : cs.takeWhile isBreak ≠ [] := by
        rw [hcs, List.takeWhile_cons_of_pos hbreak]
        simp
      -- The breaks at the front are separators, and no space may stand behind them.
      refine .inr ⟨cs.takeWhile isBreak, cs.dropWhile isBreak, ?_, hne, ?_, ?_⟩
      · rw [← hcs, hruns]
      · intro b hb
        exact h.isSeparator (List.takeWhile_sublist _ |>.subset hb) (hbs b hb)
      · cases hrest : cs.dropWhile isBreak with
        | nil => exact noGapAhead_nil
        | cons d rest =>
          have hd : isBreak d = false := by
            have := List.head_dropWhile_not (p := isBreak) (l := cs) (by simp [hrest])
            simpa [hrest] using this
          have hprint : isPrintable d = true := by
            refine h.printable d (List.dropWhile_sublist isBreak |>.subset ?_)
            rw [hrest]
            exact List.mem_cons_self
          rw [noGapAhead_cons]
          refine isGap_of_isPrintable hprint hd ?_
          rintro rfl
          have hbehind := spaceBehindBreak_breaks rest hne hbs
          rw [← hrest, hruns, h.behind] at hbehind
          simp at hbehind
    · -- The spaces at the front may not be followed by a break.
      obtain ⟨n, rest, hsplit, hspace⟩ := exists_spaces cs
      refine .inl ⟨n, rest, by rw [← hcs, hsplit], ?_⟩
      cases rest with
      | nil => exact noGapAhead_nil
      | cons d rest =>
        rw [noGapAhead_cons]
        refine isGap_of_isPrintable ?_ ?_ (by simpa using hspace)
        · exact h.printable d (by rw [hsplit]; simp)
        · by_contra hd
          have hd : isBreak d = true := by simpa using hd
          by_cases hn : n = 0
          · subst hn
            rw [show spaces 0 = [] from rfl, List.nil_append, hcs] at hsplit
            rw [(List.cons.inj hsplit).1] at hbreak
            exact hbreak hd
          · have hbefore := spaceBeforeBreak_spaces rest hn hd
            rw [← hsplit, h.before] at hbefore
            simp at hbefore

/-! ### What is written for a run -/

theorem singleChars_spaces (indent n : Nat) (rest : List Char) :
    singleChars indent false (spaces n ++ rest) = spaces n ++ singleChars indent false rest := by
  induction n with
  | zero => rfl
  | succ n ih =>
    rw [show spaces (n + 1) = ' ' :: spaces n from rfl, List.cons_append, singleChars,
      if_neg (by decide), ih]
    rfl

theorem singleChars_broken {indent : Nat} {rest : List Char} (h : NoGapAhead rest) :
    singleChars indent true rest = spaces indent ++ singleChars indent false rest := by
  cases rest with
  | nil => simp [singleChars]
  | cons c rest =>
    have hc : ¬ isBreak c = true := by
      rw [isBreak_of_isGap_eq_false (noGapAhead_cons.mp h)]
      simp
    rw [singleChars, if_neg hc, singleChars, if_neg hc]
    simp

/-- Behind a run of separators the line is indented. -/
theorem singleChars_separators {indent : Nat} {broken : Bool} {bs rest : List Char} (hne : bs ≠ [])
    (hbs : ∀ b ∈ bs, Yaml.isSeparator b = true) (hrest : NoGapAhead rest) :
    singleChars indent broken (bs ++ rest) =
      bs ++ (spaces indent ++ singleChars indent false rest) := by
  induction bs generalizing broken with
  | nil => exact absurd rfl hne
  | cons b bs ih =>
    have hb : isBreak b = true := isBreak_of_isSeparator (hbs b List.mem_cons_self)
    rw [List.cons_append, singleChars, if_pos hb, List.cons_append]
    cases bs with
    | nil => rw [List.nil_append, singleChars_broken hrest, List.nil_append]
    | cons d bs => rw [ih (by simp) fun e he => hbs e (List.mem_cons_of_mem _ he)]

theorem noGapAhead_singleChars {indent : Nat} {rest : List Char} (h : NoGapAhead rest) :
    NoGapAhead (singleChars indent false rest) := by
  cases rest with
  | nil => exact noGapAhead_nil
  | cons c rest =>
    have hc := noGapAhead_cons.mp h
    have hbreak : ¬ isBreak c = true := by
      rw [isBreak_of_isGap_eq_false hc]
      simp
    rw [singleChars, if_neg hbreak]
    simp only [Bool.false_eq_true, if_false, List.nil_append]
    split
    · exact noGapAhead_cons.mpr (by decide)
    · exact noGapAhead_cons.mpr hc

/-! ### The text -/

theorem singleText_word {c : Char} {rest : List Char} (hq : c ≠ '\'') (hgap : isGap c = false) :
    singleText (c :: rest) = (singleText rest).map (c :: ·) := by
  rw [singleText]
  · simp [hgap]
  · rintro ds rfl
    exact absurd rfl hq

/-- A gap whose last line is not empty is folded. -/
theorem singleText_gap {gap next : List Char} (hne : gap ≠ []) (hgap : ∀ c ∈ gap, isGap c = true)
    (hnext : NoGapAhead next) (hline : lastLine gap ≠ []) :
    singleText (gap ++ next) = (singleText next).map (foldGap gap ++ ·) := by
  obtain ⟨c, gap, rfl⟩ := List.exists_cons_of_ne_nil hne
  have hc := hgap c List.mem_cons_self
  have hmore : ∀ d ∈ gap, isGap d = true := fun d hd => hgap d (List.mem_cons_of_mem _ hd)
  rw [List.cons_append, singleText]
  · simp only [hc, if_true, takeWhile_gap hmore hnext, dropWhile_gap hmore hnext]
    have hempty : (lastLine (c :: gap)).isEmpty = false := by
      rw [Bool.eq_false_iff]
      simpa using hline
    rw [hempty]
    simp
  · rintro ds rfl
    exact absurd hc (by decide)

/-- A text between single quotes is read back. -/
theorem singleText_singleChars {indent : Nat} (hindent : indent ≠ 0) {cs : List Char}
    (h : SingleText cs) : singleText (singleChars indent false cs) = .ok cs := by
  induction hlen : cs.length using Nat.strong_induction_on generalizing cs with
  | h len ih =>
    -- Behind the gap at the front stands a word or nothing.
    have hword : ∀ pre rest, cs = pre ++ rest → NoGapAhead rest →
        singleText (singleChars indent false rest) = .ok rest := by
      rintro pre rest rfl hrest
      have hsingle := h.append
      cases rest with
      | nil => rw [singleChars]; simp [singleText]
      | cons c rest =>
        have hgap := noGapAhead_cons.mp hrest
        have htail : singleText (singleChars indent false rest) = .ok rest := by
          refine ih rest.length ?_ hsingle.tail rfl
          simp only [List.length_append, List.length_cons] at hlen
          omega
        rw [singleChars, if_neg (by simp [isBreak_of_isGap_eq_false hgap])]
        simp only [Bool.false_eq_true, if_false, List.nil_append]
        split
        · rename_i hc
          subst hc
          rw [List.cons_append, List.cons_append, List.nil_append, singleText, htail]
          rfl
        · rename_i hc
          rw [List.singleton_append, singleText_word hc hgap, htail]
          rfl
    rcases h.front with ⟨n, rest, hcs, hrest⟩ | ⟨bs, rest, hcs, hne, hbs, hrest⟩
    · have hread := hword _ _ hcs hrest
      rw [hcs, singleChars_spaces]
      by_cases hn : n = 0
      · subst hn
        exact hread
      · have hsome := spaces_ne_nil hn
        rw [singleText_gap hsome (isGap_spaces n) (noGapAhead_singleChars hrest)
          (by rwa [lastLine_of_noBreak (noBreak_spaces n)]), hread,
          foldGap_of_noBreak (noBreak_spaces n)]
        rfl
    · have hread := hword _ _ hcs hrest
      have hgap : ∀ c ∈ bs ++ spaces indent, isGap c = true := by
        intro c hc
        rcases List.mem_append.mp hc with hc | hc
        · exact isGap_of_isBreak (isBreak_of_isSeparator (hbs c hc))
        · exact isGap_spaces _ c hc
      have hline : lastLine (bs ++ spaces indent) = spaces indent := by
        obtain ⟨before, b, rfl⟩ := List.eq_nil_or_concat bs |>.resolve_left hne
        have hb : isBreak b = true := isBreak_of_isSeparator (hbs b (by simp))
        rw [List.concat_eq_append, List.append_assoc, List.singleton_append,
          lastLine_break_append _ hb (noBreak_spaces indent)]
      rw [hcs, singleChars_separators hne hbs hrest, ← List.append_assoc, singleText_gap
        (by simp [hne]) hgap (noGapAhead_singleChars hrest)
        (by rw [hline]; exact spaces_ne_nil hindent),
        hread, foldGap_separators hne hbs (noBreak_spaces indent)]
      rfl

end DeploymentBackup.Yaml
