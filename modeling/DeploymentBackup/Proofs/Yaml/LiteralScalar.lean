import DeploymentBackup.Proofs.Yaml.SingleQuoted
import DeploymentBackup.Yaml.Scalar.Block

namespace DeploymentBackup.Yaml

/-!
# Texts of several lines

A text with a line feed is written as a literal block. Its lines are indented, except the
empty ones, and the header says what becomes of the breaks at its end.

* `LiteralText` — the texts that are written as literal blocks.
* `linesOf` — the lines of a text, the last of which may lack a break.
* `blockLines_literalChars` — these lines are read, and no line behind them.
* `join_linesOf` — the header makes the text of them again.
-/

/-- The texts that can stand in a literal block. -/
structure LiteralText (cs : List Char) : Prop where
  ne_nil : cs ≠ []
  printable : ∀ c ∈ cs, isPrintable c = true
  before : spaceBeforeBreak cs = false
  last : cs.getLast? ≠ some ' '

/-- A line break that a printable text may hold reads as itself. -/
theorem lineBreak?_printable {b : Char} {rest : List Char} (hprint : isPrintable b = true)
    (hbreak : isBreak b = true) : lineBreak? (b :: rest) = some (b, rest) := by
  simp only [isBreak, Bool.or_eq_true, decide_eq_true_eq] at hbreak
  rcases hbreak with (((rfl | rfl) | rfl) | rfl) | rfl
  · exact absurd hprint (by decide)
  · rfl
  · exact absurd hprint (by decide)
  · rfl
  · rfl

theorem breakChars_printable {b : Char} {rest : List Char} (hprint : isPrintable b = true)
    (hbreak : isBreak b = true) : breakChars (b :: rest) = [b] := by
  have hr : b ≠ '\r' := by
    rintro rfl
    exact absurd hprint (by decide)
  rw [breakChars, if_pos hbreak]
  rintro ds rfl
  exact absurd rfl hr

/-! ### The lines of a text -/

/-- The lines of a text; a line feed ends the last one where its break is missing. -/
def linesOf : List Char → List BlockLine
  | [] => []
  | c :: rest =>
    if isBreak c then ⟨[], [c]⟩ :: linesOf rest
    else
      match linesOf rest with
      | [] => [⟨[c], ['\n']⟩]
      | line :: lines => ⟨c :: line.text, line.ending⟩ :: lines

/-- The line feed behind a text that does not end in a break. -/
def missingBreak (cs : List Char) : List Char :=
  if cs = [] ∨ cs.getLast?.any isBreak = true then [] else ['\n']

theorem missingBreak_cons_break {b : Char} {cs : List Char} (hb : isBreak b = true) :
    missingBreak (b :: cs) = missingBreak cs := by
  cases cs with
  | nil => simp [missingBreak, hb]
  | cons c cs => simp [missingBreak]

theorem missingBreak_append {ds cs : List Char} (hne : cs ≠ []) :
    missingBreak (ds ++ cs) = missingBreak cs := by
  obtain ⟨cs, c, rfl⟩ := List.eq_nil_or_concat cs |>.resolve_left hne
  rw [List.concat_eq_append, ← List.append_assoc]
  simp [missingBreak]

theorem missingBreak_line {line : List Char} (hne : line ≠ []) (h : NoBreak line) :
    missingBreak line = ['\n'] := by
  obtain ⟨ds, c, rfl⟩ := List.eq_nil_or_concat line |>.resolve_left hne
  simp [missingBreak, h c (by simp)]

/-- The lines hold the text and nothing else. -/
theorem flatMap_linesOf (cs : List Char) :
    (linesOf cs).flatMap (fun line => line.text ++ line.ending) = cs ++ missingBreak cs := by
  induction cs with
  | nil => simp [linesOf, missingBreak]
  | cons c rest ih =>
    rw [linesOf]
    split
    · rename_i hc
      rw [List.flatMap_cons, ih, missingBreak_cons_break hc]
      rfl
    · rename_i hc
      have hc : isBreak c = false := by simpa using hc
      -- A character goes to the front of the line behind it, if there is one.
      cases hlines : linesOf rest with
      | nil =>
        rw [hlines, List.flatMap_nil] at ih
        have hrest : rest = [] := (List.append_eq_nil_iff.mp ih.symm).1
        subst hrest
        simp [missingBreak, hc]
      | cons line lines =>
        have hrest : rest ≠ [] := by
          rintro rfl
          simp [linesOf] at hlines
        rw [hlines, List.flatMap_cons] at ih
        rw [List.flatMap_cons, ← List.singleton_append (l := rest), missingBreak_append hrest,
          List.append_assoc [c], ← ih]
        simp

theorem linesOf_line {line : List Char} (hne : line ≠ []) (h : NoBreak line) :
    linesOf line = [⟨line, ['\n']⟩] := by
  induction line with
  | nil => exact absurd rfl hne
  | cons c line ih =>
    have hc := h c List.mem_cons_self
    rw [linesOf, if_neg (by simp [hc])]
    cases line with
    | nil => rfl
    | cons d line => rw [ih (by simp) fun e he => h e (List.mem_cons_of_mem _ he)]

theorem linesOf_append_break {line rest : List Char} {b : Char} (h : NoBreak line)
    (hb : isBreak b = true) : linesOf (line ++ b :: rest) = ⟨line, [b]⟩ :: linesOf rest := by
  induction line with
  | nil => rw [List.nil_append, linesOf, if_pos hb]
  | cons c line ih =>
    rw [List.cons_append, linesOf, if_neg (by simp [h c List.mem_cons_self]),
      ih fun e he => h e (List.mem_cons_of_mem _ he)]

/-- When the end of a text is one line with text, its lines end with such a line. -/
theorem exists_linesOf_append {pre ends ending : List Char} {text : List Char} (hne : text ≠ [])
    (hends : linesOf ends = [⟨text, ending⟩]) :
    ∃ before text, text ≠ [] ∧ linesOf (pre ++ ends) = before ++ [⟨text, ending⟩] := by
  induction pre with
  | nil => exact ⟨[], text, hne, hends⟩
  | cons c pre ih =>
    obtain ⟨before, text, hne, hlines⟩ := ih
    rw [List.cons_append, linesOf, hlines]
    split
    · exact ⟨⟨[], [c]⟩ :: before, text, hne, rfl⟩
    · cases before with
      | nil => exact ⟨[], c :: text, by simp, rfl⟩
      | cons line before => exact ⟨⟨c :: line.text, line.ending⟩ :: before, text, hne, rfl⟩

/-! ### What is written -/

theorem literalChars_append {indent : Nat} {line rest : List Char} (h : NoBreak line) :
    literalChars indent false (line ++ rest) = line ++ literalChars indent false rest := by
  induction line with
  | nil => rfl
  | cons c line ih =>
    rw [List.cons_append, literalChars, if_neg (by simp [h c List.mem_cons_self]),
      ih fun e he => h e (List.mem_cons_of_mem _ he)]
    rfl

theorem literalChars_line (indent : Nat) {line : List Char} (rest : List Char) (hne : line ≠ [])
    (h : NoBreak line) :
    literalChars indent true (line ++ rest) =
      spaces indent ++ (line ++ literalChars indent false rest) := by
  obtain ⟨c, line, rfl⟩ := List.exists_cons_of_ne_nil hne
  rw [List.cons_append, literalChars, if_neg (by simp [h c List.mem_cons_self]), if_pos rfl,
    literalChars_append fun e he => h e (List.mem_cons_of_mem _ he), List.cons_append]

theorem literalChars_break {indent : Nat} {broken : Bool} {b : Char} {rest : List Char}
    (hb : isBreak b = true) :
    literalChars indent broken (b :: rest) = b :: literalChars indent true rest := by
  rw [literalChars, if_pos hb]

/-! ### The lines are read -/

theorem literalChars_append_break {indent : Nat} {broken : Bool} {cs : List Char} {b : Char}
    (hb : isBreak b = true) :
    literalChars indent broken (cs ++ [b]) = literalChars indent broken cs ++ [b] := by
  induction cs generalizing broken with
  | nil =>
    rw [List.nil_append, literalChars_break hb]
    rfl
  | cons c cs ih =>
    rw [List.cons_append, literalChars, literalChars]
    split
    · rw [ih, List.cons_append]
    · rw [ih, List.append_assoc, List.cons_append]

/-- A literal block ends with its last line. -/
theorem exists_literalChars_break (indent : Nat) {cs : List Char} (hne : cs ≠ []) :
    ∃ before b, isBreak b = true ∧
      literalChars indent true cs ++ missingBreak cs = before ++ [b] := by
  obtain ⟨pre, b, rfl⟩ := (List.eq_nil_or_concat cs).resolve_left hne
  rw [List.concat_eq_append, missingBreak_append (by simp)]
  by_cases hb : isBreak b = true
  · refine ⟨literalChars indent true pre, b, hb, ?_⟩
    rw [literalChars_append_break hb, missingBreak_cons_break hb]
    exact List.append_nil _
  · refine ⟨literalChars indent true (pre ++ [b]), '\n', by decide, ?_⟩
    rw [missingBreak_line (by simp)]
    simpa [NoBreak] using hb

theorem takeWhile_spaces (n : Nat) (rest : List Char) :
    (spaces n ++ rest).takeWhile (· = ' ') = spaces n ++ rest.takeWhile (· = ' ') :=
  List.takeWhile_append_of_pos fun c hc => by simpa using mem_spaces hc

theorem takeWhile_noSpace {rest : List Char} (h : rest.head? ≠ some ' ') :
    rest.takeWhile (· = ' ') = [] := by
  cases rest with
  | nil => rfl
  | cons c rest => rw [List.takeWhile_cons_of_neg (by simpa using h)]

/-- How the line is read that starts with `indentation`. -/
theorem blockLines_eq {indent : Nat} {indentation after : List Char}
    (h : ((indentation ++ after).takeWhile (· = ' ')).take indent = indentation) :
    blockLines indent (indentation ++ after) =
      if indentation.length < indent && after.head? = some '\t' then .error .tabIndentation
      else
        match lineBreak? after with
        | some (b, rest) =>
          (blockLines indent rest).map fun (lines, taken) =>
            (⟨[], [b]⟩ :: lines, indentation ++ breakChars after ++ taken)
        | none =>
          if indentation.length < indent || after.isEmpty then .ok ([], [])
          else
            match lineBreak? (after.drop (after.takeWhile (! isBreak ·)).length) with
            | some (b, rest) =>
              (blockLines indent rest).map fun (lines, taken) =>
                (⟨after.takeWhile (! isBreak ·), [b]⟩ :: lines,
                  indentation ++ after.takeWhile (! isBreak ·) ++
                    breakChars (after.drop (after.takeWhile (! isBreak ·)).length) ++ taken)
            | none => .ok ([⟨after.takeWhile (! isBreak ·), []⟩], indentation ++ after) := by
  -- Wherever the reader drops the indentation, what is left is `after`.
  have hdrop : (indentation ++ after).drop
      (((indentation ++ after).takeWhile (· = ' ')).take indent).length = after := by
    rw [h, List.drop_left]
  rw [blockLines]
  simp only [h, List.drop_left]
  split
  · rfl
  · split
    · rename_i hbreak
      rw [hdrop] at hbreak
      rw [hbreak]
    · rename_i hbreak
      rw [hdrop] at hbreak
      rw [hbreak]
      split
      · rfl
      · split
        · rename_i hline
          rw [hdrop] at hline
          rw [hline]
        · rename_i hline
          rw [hdrop] at hline
          rw [hline]

/-- A line that is indented less than the block ends it. -/
theorem blockLines_stop {indent column : Nat} {next : List Char} (h : column < indent)
    (hnext : NoGapAhead next) : blockLines indent (spaces column ++ next) = .ok ([], []) := by
  have hspace : next.head? ≠ some ' ' := by
    intro hc
    exact absurd (hnext ' ' hc) (by decide)
  have htab : next.head? ≠ some '\t' := by
    intro hc
    exact absurd (hnext '\t' hc) (by decide)
  have hbreak : lineBreak? next = none := by
    cases next with
    | nil => rfl
    | cons c next => exact lineBreak?_of_not (isBreak_of_isGap_eq_false (noGapAhead_cons.mp hnext))
  have hspaces : ((spaces column ++ next).takeWhile (· = ' ')).take indent = spaces column := by
    rw [takeWhile_spaces, takeWhile_noSpace hspace, List.append_nil,
      List.take_of_length_le (by rw [length_spaces]; omega)]
  rw [blockLines_eq hspaces, hbreak, length_spaces, if_neg (by simp [htab]), if_pos (by simp [h])]

/-- An empty line is read with its break. -/
theorem blockLines_empty {indent : Nat} {b : Char} {rest : List Char}
    (hprint : isPrintable b = true) (hb : isBreak b = true) :
    blockLines indent (b :: rest) =
      (blockLines indent rest).map fun (lines, taken) => (⟨[], [b]⟩ :: lines, b :: taken) := by
  have hspace : (b :: rest).head? ≠ some ' ' := by
    rintro ⟨⟩
    exact absurd hb (by decide)
  have htab : b ≠ '\t' := by
    rintro rfl
    exact absurd hprint (by decide)
  have hspaces : (([] ++ b :: rest).takeWhile (· = ' ')).take indent = [] := by
    rw [List.nil_append, takeWhile_noSpace hspace, List.take_nil]
  have hread := blockLines_eq hspaces
  rw [List.nil_append, lineBreak?_printable hprint hb, if_neg (by simp [htab]),
    breakChars_printable hprint hb] at hread
  exact hread

/-- An indented line is read with its break. -/
theorem blockLines_line {indent : Nat} {line rest : List Char} {b : Char} (hne : line ≠ [])
    (h : NoBreak line) (hprint : isPrintable b = true) (hb : isBreak b = true) :
    blockLines indent (spaces indent ++ (line ++ b :: rest)) =
      (blockLines indent rest).map fun (lines, taken) =>
        (⟨line, [b]⟩ :: lines, spaces indent ++ (line ++ b :: taken)) := by
  have hspaces :
      ((spaces indent ++ (line ++ b :: rest)).takeWhile (· = ' ')).take indent = spaces indent := by
    rw [takeWhile_spaces, List.take_append_of_le_length (by rw [length_spaces]),
      List.take_of_length_le (by rw [length_spaces])]
  have hline : (line ++ b :: rest).takeWhile (! isBreak ·) = line := by
    rw [List.takeWhile_append_of_pos fun c hc => by simp [h c hc],
      List.takeWhile_cons_of_neg (by simp [hb]), List.append_nil]
  have hnobreak : lineBreak? (line ++ b :: rest) = none := by
    obtain ⟨c, line, rfl⟩ := List.exists_cons_of_ne_nil hne
    exact lineBreak?_of_not (h c List.mem_cons_self)
  rw [blockLines_eq hspaces, hnobreak, length_spaces, if_neg (by simp)]
  simp only [hline, List.drop_left, lineBreak?_printable hprint hb, breakChars_printable hprint hb]
  rw [if_neg (by simp)]
  simp

/-- The first line of a text, and what follows it. -/
theorem exists_line (cs : List Char) :
    (NoBreak cs) ∨ ∃ line b rest, cs = line ++ b :: rest ∧ NoBreak line ∧ isBreak b = true := by
  induction cs with
  | nil => exact .inl (by simp [NoBreak])
  | cons c cs ih =>
    by_cases hc : isBreak c = true
    · exact .inr ⟨[], c, cs, rfl, by simp [NoBreak], hc⟩
    · have hc : isBreak c = false := by simpa using hc
      rcases ih with h | ⟨line, b, rest, rfl, hline, hb⟩
      · refine .inl fun d hd => ?_
        rcases List.mem_cons.mp hd with rfl | hd
        · exact hc
        · exact h d hd
      · refine .inr ⟨c :: line, b, rest, rfl, fun d hd => ?_, hb⟩
        rcases List.mem_cons.mp hd with rfl | hd
        · exact hc
        · exact hline d hd

/-- The lines of a text are read, and the text behind them is left. -/
theorem blockLines_literalChars {indent column : Nat} {cs next : List Char}
    (hprint : ∀ c ∈ cs, isPrintable c = true) (h : column < indent) (hnext : NoGapAhead next) :
    blockLines indent
        (literalChars indent true cs ++ (missingBreak cs ++ (spaces column ++ next))) =
      .ok (linesOf cs, literalChars indent true cs ++ missingBreak cs) := by
  induction hlen : cs.length using Nat.strong_induction_on generalizing cs with
  | h len ih =>
    rcases exists_line cs with hline | ⟨line, b, rest, hcs, hline, hb⟩
    · -- No break is left: this is the last line, or there is none.
      by_cases hne : cs = []
      · subst hne
        simpa [literalChars, missingBreak, linesOf] using blockLines_stop h hnext
      · have hwritten := literalChars_line indent [] hne hline
        rw [List.append_nil, literalChars, List.append_nil] at hwritten
        rw [hwritten, missingBreak_line hne hline, List.append_assoc, List.singleton_append,
          blockLines_line hne hline (by decide) (by decide), blockLines_stop h hnext,
          linesOf_line hne hline]
        simp [Except.map]
    · -- One line is read, and the others by induction; an empty line is written without its
      -- indentation.
      have hrest : ∀ c ∈ rest, isPrintable c = true := fun c hc =>
        hprint c (by rw [hcs]; simp [hc])
      have hbprint : isPrintable b = true := hprint b (by rw [hcs]; simp)
      have hread := ih rest.length (by rw [← hlen, hcs]; simp; omega) hrest rfl
      have hmissing : missingBreak cs = missingBreak rest := by
        rw [hcs, missingBreak_append (by simp), missingBreak_cons_break hb]
      rw [hmissing]
      by_cases hne : line = []
      · subst hne
        rw [List.nil_append] at hcs
        rw [hcs, literalChars_break hb, List.cons_append, blockLines_empty hbprint hb, hread,
          linesOf, if_pos hb]
        simp [Except.map]
      · rw [hcs, literalChars_line _ _ hne hline, literalChars_break hb, List.append_assoc,
          List.append_assoc, List.cons_append, blockLines_line hne hline hbprint hb, hread,
          linesOf_append_break hline hb]
        simp [Except.map]

/-! ### The text of the lines -/

/-- In a literal block every break stays, so the lines joined hold all that they held. -/
theorem joinLines_literal (join : LineJoin) (lines : List BlockLine) :
    (joinLines false join lines).1 ++ (joinLines false join lines).2.ending ++
        (joinLines false join lines).2.blankEndings =
      join.ending ++ join.blankEndings ++
        lines.flatMap fun line => line.text ++ line.ending := by
  induction lines generalizing join with
  | nil => simp [joinLines]
  | cons line lines ih =>
    obtain ⟨text, ending⟩ := line
    cases text with
    | nil =>
      rw [joinLines, ih]
      simp
    | cons c text =>
      simp only [joinLines, LineJoin.gap, Bool.false_and, Bool.false_eq_true, if_false]
      have := ih ⟨ending, [], isSpace c⟩
      simp only [List.append_assoc] at this ⊢
      rw [this]
      simp

/-- The last line with text decides about the break at the end. -/
theorem joinLines_append_line (join : LineJoin) (before : List BlockLine) {text : List Char}
    (ending : List Char) (hne : text ≠ []) :
    (joinLines false join (before ++ [⟨text, ending⟩])).2.ending = ending ∧
      (joinLines false join (before ++ [⟨text, ending⟩])).2.blankEndings = [] := by
  induction before generalizing join with
  | nil =>
    obtain ⟨c, text, rfl⟩ := List.exists_cons_of_ne_nil hne
    simp [joinLines]
  | cons line before ih =>
    obtain ⟨ltext, lending⟩ := line
    rw [List.cons_append]
    cases ltext with
    | nil => rw [joinLines]; exact ih _
    | cons c ltext => simp only [joinLines]; exact ih _

/-! ### The header -/

/-- What becomes of the breaks at the end of a text. -/
def chompingOf (cs : List Char) : Chomping :=
  match cs.reverse with
  | [] => .strip
  | [b] => if isBreak b then .keep else .strip
  | b :: before :: _ =>
    if !isBreak b then .strip else if isBreak before then .keep else .clip

/-- How a chomping is written. -/
def Chomping.mark : Chomping → List Char
  | .clip => []
  | .strip => ['-']
  | .keep => ['+']

/-- The header behind its indicator. -/
def headerLine (cs : List Char) : List Char :=
  (if cs.head?.any fun c => c = ' ' || isBreak c then ['2'] else []) ++ (chompingOf cs).mark

theorem literalHeader_eq (cs : List Char) : literalHeader cs = '|' :: headerLine cs := by
  have hmark : (match cs.reverse with
      | [] => ['-']
      | [b] => if isBreak b then ['+'] else ['-']
      | b :: before :: _ =>
        if !isBreak b then ['-'] else if isBreak before then ['+'] else []) =
      (chompingOf cs).mark := by
    unfold chompingOf
    split
    · rfl
    · split <;> rfl
    · split
      · rfl
      · split <;> rfl
  rw [literalHeader, headerLine, ← hmark]
  rfl

/-- The header that is written is read. -/
theorem read?_headerLine (cs : List Char) :
    BlockHeader.read? (headerLine cs) =
      some ⟨chompingOf cs,
        if cs.head?.any fun c => c = ' ' || isBreak c then some 2 else none⟩ := by
  rw [headerLine]
  cases chompingOf cs <;> split <;> decide

theorem mem_headerLine {cs : List Char} {c : Char} (hc : c ∈ headerLine cs) :
    c = '2' ∨ c = '-' ∨ c = '+' := by
  rw [headerLine, List.mem_append] at hc
  rcases hc with hc | hc
  · split at hc
    · exact .inl (by simpa using hc)
    · simp at hc
  · cases hchomping : chompingOf cs <;> rw [hchomping] at hc <;> simp_all [Chomping.mark]

theorem noBreak_headerLine (cs : List Char) : NoBreak (headerLine cs) := by
  intro c hc
  rcases mem_headerLine hc with rfl | rfl | rfl <;> decide

/-- The header makes the text of its lines again. -/
theorem join_linesOf {cs : List Char} (indent : Option Nat) (hne : cs ≠ []) :
    BlockHeader.join ⟨chompingOf cs, indent⟩ false (linesOf cs) = cs := by
  obtain ⟨pre, b, hcs⟩ := List.eq_nil_or_concat cs |>.resolve_left hne
  rw [List.concat_eq_append] at hcs
  have hjoin := joinLines_literal ⟨[], [], false⟩ (linesOf cs)
  rw [flatMap_linesOf, List.append_nil, List.nil_append] at hjoin
  rw [BlockHeader.join]
  by_cases hb : isBreak b = true
  · have hmissing : missingBreak cs = [] := by simp [missingBreak, hcs, hb]
    rw [hmissing, List.append_nil] at hjoin
    -- Two breaks at the end are kept, and one that is all the text; any other one is clipped.
    rcases List.eq_nil_or_concat pre with rfl | ⟨pre, before, rfl⟩
    · have hchomping : chompingOf cs = .keep := by simp [chompingOf, hcs, hb]
      rw [hchomping]
      exact hjoin
    · rw [List.concat_eq_append, List.append_assoc, List.singleton_append] at hcs
      by_cases hbefore : isBreak before = true
      · have hchomping : chompingOf cs = .keep := by simp [chompingOf, hcs, hb, hbefore]
        rw [hchomping]
        exact hjoin
      · have hchomping : chompingOf cs = .clip := by simp [chompingOf, hcs, hb, hbefore]
        have hends : linesOf [before, b] = [⟨[before], [b]⟩] := by simp [linesOf, hb, hbefore]
        obtain ⟨lines, text, htext, hlines⟩ := exists_linesOf_append (by simp) hends
        rw [← hcs] at hlines
        have hlast := (joinLines_append_line ⟨[], [], false⟩ lines [b] htext).2
        rw [← hlines] at hlast
        rw [hlast, List.append_nil] at hjoin
        rw [hchomping]
        exact hjoin
  · -- The line break at the end is not one of the text, and is stripped.
    have hmissing : missingBreak cs = ['\n'] := by simp [missingBreak, hcs, hb]
    have hchomping : chompingOf cs = .strip := by
      rcases List.eq_nil_or_concat pre with rfl | ⟨pre, before, rfl⟩ <;>
        simp [chompingOf, hcs, hb]
    have hends : linesOf [b] = [⟨[b], ['\n']⟩] := by simp [linesOf, hb]
    obtain ⟨lines, text, htext, hlines⟩ := exists_linesOf_append (by simp) hends
    rw [← hcs] at hlines
    obtain ⟨hending, hblank⟩ := joinLines_append_line ⟨[], [], false⟩ lines ['\n'] htext
    rw [← hlines] at hending hblank
    rw [hending, hblank, List.append_nil, hmissing] at hjoin
    rw [hchomping]
    exact List.append_cancel_right hjoin

/-- The indentation of a block in a collection: given by the header, or shown by the first
    line. -/
theorem indentation_literalChars {margin : Nat} {cs : List Char} (hmargin : margin ≠ 0)
    (hne : cs ≠ []) (hprint : ∀ c ∈ cs, isPrintable c = true) (chomping : Chomping)
    (rest : List Char) :
    BlockHeader.indentation
        ⟨chomping, if cs.head?.any fun c => c = ' ' || isBreak c then some 2 else none⟩ margin
        (literalChars (margin + 1) true cs ++ rest) = .ok (margin + 1) := by
  obtain ⟨c, ds, hcs⟩ := List.exists_cons_of_ne_nil hne
  by_cases hhint : (cs.head?.any fun c => c = ' ' || isBreak c) = true
  · rw [if_pos hhint, BlockHeader.indentation]
    exact congrArg Except.ok (by omega)
  · -- Without a hint, the first line says how far the text is indented.
    rw [if_neg hhint]
    have hfirst : c ≠ ' ' ∧ ¬ isBreak c = true := by simpa [hcs] using hhint
    have htab : c ≠ '\t' := by
      rintro rfl
      exact absurd (hprint _ (by rw [hcs]; exact List.mem_cons_self)) (by decide)
    have hbody : literalChars (margin + 1) true cs ++ rest =
        spaces (margin + 1) ++ (c :: (literalChars (margin + 1) false ds ++ rest)) := by
      rw [hcs, literalChars, if_neg hfirst.2, if_pos rfl, List.append_assoc, List.cons_append]
    have hspaces : (spaces (margin + 1) ++
        (c :: (literalChars (margin + 1) false ds ++ rest))).takeWhile (· = ' ') =
          spaces (margin + 1) := by
      rw [takeWhile_spaces, takeWhile_noSpace (by simpa using hfirst.1), List.append_nil]
    -- The line begins with a character that is neither a blank nor a break, so the count of blanks
    -- in front of it is the width.
    have hwidest : widestIndent (literalChars (margin + 1) true cs ++ rest) = .ok (margin + 1) := by
      have hdrop : (spaces (margin + 1) ++ (c :: (literalChars (margin + 1) false ds ++ rest))).drop
          ((spaces (margin + 1) ++ (c :: (literalChars (margin + 1) false ds ++ rest))).takeWhile
            (· = ' ')).length = c :: (literalChars (margin + 1) false ds ++ rest) := by
        rw [hspaces, List.drop_left]
      have htabHead : (c :: (literalChars (margin + 1) false ds ++ rest)).head? ≠ some '\t' := by
        simpa using htab
      rw [hbody, widestIndent]
      simp only [hdrop]
      rw [if_neg htabHead]
      split
      · rename_i hbreak
        rw [hdrop, lineBreak?_of_not (by simpa using hfirst.2)] at hbreak
        simp at hbreak
      · rw [hspaces, length_spaces]
    rw [BlockHeader.indentation, hwidest]
    show Except.ok (max (margin + 1) (max margin 1)) = _
    exact congrArg Except.ok (by omega)

end DeploymentBackup.Yaml
