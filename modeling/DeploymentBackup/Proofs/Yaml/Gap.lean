import DeploymentBackup.Yaml.Print
import Mathlib.Data.List.TakeWhile

namespace DeploymentBackup.Yaml

/-!
# Gaps between words

What the printer writes between words is a run of spaces, or line breaks with the
indentation of the next line behind them. This file says how such a gap reads, and where the
reader stands behind it.

* `NoGapAhead` — the text starts with a word, or is at its end.
* `foldGap_of_noBreak`, `foldGap_separators` — a gap inside a line reads as itself, a gap of
  separators as these separators.
* `after_append_break` — behind a line break, the column is the indentation of the line.
-/

/-- A word starts here, or the text is at its end. -/
def NoGapAhead (cs : List Char) : Prop :=
  ∀ c, cs.head? = some c → isGap c = false

/-- No line break is among the characters. -/
def NoBreak (cs : List Char) : Prop :=
  ∀ c ∈ cs, isBreak c = false

theorem noGapAhead_nil : NoGapAhead [] := by
  intro c h
  simp at h

theorem noGapAhead_cons {c : Char} {cs : List Char} : NoGapAhead (c :: cs) ↔ isGap c = false := by
  simp [NoGapAhead]

theorem isGap_of_isBreak {c : Char} (h : isBreak c = true) : isGap c = true := by
  simp [isGap, h]

theorem isBreak_of_isGap_eq_false {c : Char} (h : isGap c = false) : isBreak c = false := by
  simp_all [isGap]

theorem isGap_space : isGap ' ' = true := by decide

theorem isBreak_space : isBreak ' ' = false := by decide

/-! ### The gap at the front -/

theorem takeWhile_gap {gap next : List Char} (hgap : ∀ c ∈ gap, isGap c = true)
    (hnext : NoGapAhead next) : (gap ++ next).takeWhile isGap = gap := by
  rw [List.takeWhile_append_of_pos hgap]
  cases next with
  | nil => simp
  | cons c next => rw [List.takeWhile_cons_of_neg (by simp [noGapAhead_cons.mp hnext]),
      List.append_nil]

theorem dropWhile_gap {gap next : List Char} (hgap : ∀ c ∈ gap, isGap c = true)
    (hnext : NoGapAhead next) : (gap ++ next).dropWhile isGap = next := by
  rw [List.dropWhile_append_of_pos hgap]
  cases next with
  | nil => rfl
  | cons c next => rw [List.dropWhile_cons_of_neg (by simp [noGapAhead_cons.mp hnext])]

theorem mem_spaces {n : Nat} {c : Char} (h : c ∈ spaces n) : c = ' ' :=
  List.eq_of_mem_replicate h

theorem length_spaces (n : Nat) : (spaces n).length = n :=
  List.length_replicate

theorem spaces_ne_nil {n : Nat} (hn : n ≠ 0) : spaces n ≠ [] := by
  intro hnil
  exact hn (by simpa [hnil] using (length_spaces n).symm)

theorem noBreak_spaces (n : Nat) : NoBreak (spaces n) := by
  intro c hc
  rw [mem_spaces hc]
  exact isBreak_space

theorem isGap_spaces (n : Nat) : ∀ c ∈ spaces n, isGap c = true := by
  intro c hc
  rw [mem_spaces hc]
  exact isGap_space

/-! ### How a gap reads -/

theorem breaksOf_cons_of_not {c : Char} {cs : List Char} (h : isBreak c = false) :
    breaksOf (c :: cs) = breaksOf cs := by
  have hc : c ≠ '\u2028' ∧ c ≠ '\u2029' ∧ c ≠ '\r' := by
    refine ⟨?_, ?_, ?_⟩ <;> rintro rfl <;> exact absurd h (by decide)
  rw [breaksOf]
  · simp [h, hc]
  · rintro rest rfl
    exact absurd rfl hc.2.2

theorem breaksOf_of_noBreak {cs : List Char} (h : NoBreak cs) : breaksOf cs = [] := by
  induction cs with
  | nil => rw [breaksOf]
  | cons c cs ih =>
    rw [breaksOf_cons_of_not (h c List.mem_cons_self)]
    exact ih fun d hd => h d (List.mem_cons_of_mem _ hd)

/-- A gap inside a line reads as it is. -/
theorem foldGap_of_noBreak {gap : List Char} (h : NoBreak gap) : foldGap gap = gap := by
  rw [foldGap, breaksOf_of_noBreak h]

theorem lastLine_of_noBreak {cs : List Char} (h : NoBreak cs) : lastLine cs = cs := by
  rw [lastLine, List.takeWhile_eq_self_iff.mpr, List.reverse_reverse]
  intro c hc
  rw [h c (List.mem_reverse.mp hc)]
  rfl

/-- The line behind the last line break. -/
theorem lastLine_break_append {b : Char} (before : List Char) {line : List Char}
    (hb : isBreak b = true) (h : NoBreak line) : lastLine (before ++ b :: line) = line := by
  have hline : ∀ c ∈ line.reverse, (! isBreak c) = true := by
    intro c hc
    rw [h c (List.mem_reverse.mp hc)]
    rfl
  rw [lastLine, List.reverse_append, List.reverse_cons, List.append_assoc,
    List.takeWhile_append_of_pos hline, List.singleton_append,
    List.takeWhile_cons_of_neg (by simp [hb]), List.append_nil, List.reverse_reverse]

/-- The two separators, the breaks that read as themselves. -/
def isSeparator (c : Char) : Bool :=
  c = '\u2028' || c = '\u2029'

theorem isBreak_of_isSeparator {c : Char} (h : isSeparator c = true) : isBreak c = true := by
  simp only [isSeparator, Bool.or_eq_true, decide_eq_true_eq] at h
  rcases h with rfl | rfl <;> decide

theorem breaksOf_separators {bs cs : List Char} (hbs : ∀ b ∈ bs, isSeparator b = true)
    (hcs : NoBreak cs) : breaksOf (bs ++ cs) = bs := by
  induction bs with
  | nil => exact breaksOf_of_noBreak hcs
  | cons b bs ih =>
    have hb := hbs b List.mem_cons_self
    simp only [isSeparator, Bool.or_eq_true, decide_eq_true_eq] at hb
    have hr : b ≠ '\r' := by rcases hb with rfl | rfl <;> decide
    rw [List.cons_append, breaksOf]
    · rw [if_pos (by simpa using hb), ih fun d hd => hbs d (List.mem_cons_of_mem _ hd)]
    · rintro rest rfl
      exact absurd rfl hr

/-- Separators with an indented line behind them read as the separators. -/
theorem foldGap_separators {bs cs : List Char} (hne : bs ≠ [])
    (hbs : ∀ b ∈ bs, isSeparator b = true) (hcs : NoBreak cs) : foldGap (bs ++ cs) = bs := by
  rw [foldGap, breaksOf_separators hbs hcs]
  obtain ⟨b, bs, rfl⟩ := List.exists_cons_of_ne_nil hne
  have hb : b ≠ '\n' := by
    rintro rfl
    exact absurd (hbs _ List.mem_cons_self) (by decide)
  show foldBreaks (b :: bs) = b :: bs
  rw [foldBreaks]
  · intro h
    exact hb (List.cons.inj h).1
  · intro more h
    exact hb (List.cons.inj h).1

/-! ### Positions -/

theorem after_cons_of_not {p : Position} {c : Char} {cs : List Char} (h : isBreak c = false) :
    p.after (c :: cs) = Position.after ⟨p.index + 1, p.line, p.column + 1⟩ cs := by
  have hc : c ≠ '\r' := by
    rintro rfl
    exact absurd h (by decide)
  rw [Position.after]
  · simp [h]
  · rintro rest rfl
    exact absurd rfl hc

/-- Inside a line, index and column grow together. -/
theorem after_of_noBreak {p : Position} {cs : List Char} (h : NoBreak cs) :
    p.after cs = ⟨p.index + cs.length, p.line, p.column + cs.length⟩ := by
  induction cs generalizing p with
  | nil => rw [Position.after]; rfl
  | cons c cs ih =>
    rw [after_cons_of_not (h c List.mem_cons_self),
      ih fun d hd => h d (List.mem_cons_of_mem _ hd), List.length_cons]
    simp only [Position.mk.injEq, true_and]
    omega

/-- Reading on never goes back to an earlier line. -/
theorem line_le_after (p : Position) (cs : List Char) : p.line ≤ (p.after cs).line := by
  fun_induction Position.after p cs with
  | case1 p rest ih => exact Nat.le_trans (Nat.le_succ _) ih
  | case2 p c rest _ _ ih => exact Nat.le_trans (Nat.le_succ _) ih
  | case3 p c rest _ _ ih => exact ih
  | case4 p => exact Nat.le_refl _

theorem after_break_spaces (p : Position) {b : Char} (hb : isBreak b = true) (n : Nat) :
    p.after (b :: spaces n) = ⟨p.index + 1 + n, p.line + 1, n⟩ := by
  rw [Position.after]
  · rw [if_pos hb, after_of_noBreak (noBreak_spaces n), length_spaces, Nat.zero_add]
  · intro rest _ h
    have hfeed : '\n' = ' ' := mem_spaces (n := n) (by rw [h]; exact List.mem_cons_self)
    exact absurd hfeed (by decide)

/-- Behind a line break stands a later line, and the column is its indentation. -/
theorem after_append_break (p : Position) (before : List Char) {b : Char}
    (hb : isBreak b = true) (n : Nat) :
    p.line < (p.after (before ++ b :: spaces n)).line ∧
      (p.after (before ++ b :: spaces n)).column = n := by
  fun_induction Position.after p before with
  | case1 p rest ih =>
    rw [List.cons_append, List.cons_append, Position.after]
    exact ⟨Nat.lt_of_succ_lt ih.1, ih.2⟩
  | case2 p c rest hc h ih =>
    -- A break of its own, which is no return with a line feed behind it.
    have hstep : ∀ ds, (∀ es, c = '\r' → ds = '\n' :: es → False) →
        p.after (c :: ds) = Position.after ⟨p.index + 1, p.line + 1, 0⟩ ds := by
      intro ds hds
      rw [Position.after, if_pos h]
      exact fun es hr hfeed => hds es hr hfeed
    cases rest with
    | nil =>
      by_cases hline : c = '\r' ∧ b = '\n'
      · -- A return in front of the line feed ends the same line.
        rw [hline.1, hline.2, List.cons_append, List.nil_append, Position.after,
          after_of_noBreak (noBreak_spaces n), length_spaces]
        exact ⟨Nat.lt_succ_self _, Nat.zero_add n⟩
      · rw [List.cons_append, hstep]
        · exact ⟨Nat.lt_of_succ_lt ih.1, ih.2⟩
        · intro es hr hfeed
          exact hline ⟨hr, (List.cons.inj hfeed).1⟩
    | cons d rest =>
      rw [List.cons_append, hstep]
      · exact ⟨Nat.lt_of_succ_lt ih.1, ih.2⟩
      · rintro es rfl hfeed
        -- A return in front of a line feed was the case before this one.
        exact hc rest rfl (by rw [(List.cons.inj hfeed).1])
  | case3 p c rest hc h ih =>
    rw [List.cons_append, after_cons_of_not (by simpa using h)]
    exact ih
  | case4 p =>
    rw [List.nil_append, after_break_spaces p hb n]
    exact ⟨Nat.lt_succ_self _, rfl⟩

end DeploymentBackup.Yaml
