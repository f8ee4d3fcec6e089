import DeploymentBackup.Text.Lines

namespace DeploymentBackup.Text

/-!
# Pieces and what they are pieces of

* `intercalate_pieces`, `pieces_intercalate` — to take apart and to join.
* `pieces_eq_iff` — which pieces a text has.
* `pieces_front` — the pieces of the front of a text.
* `cutAt_append`, `cutAt_eq_some_iff`, `cutAt_eq_none_iff` — the first separator.
* `stripPrefix?_eq_some_iff` — what stands behind a prefix.
-/

variable {sep : Char}

theorem exists_pieces (sep : Char) (cs : List Char) :
    ∃ head tail, pieces sep cs = head :: tail := by
  cases cs with
  | nil => exact ⟨[], [], rfl⟩
  | cons c rest =>
    rw [pieces]
    split
    · exact ⟨_, _, rfl⟩
    · split <;> exact ⟨_, _, rfl⟩

theorem pieces_cons_sep (rest : List Char) : pieces sep (sep :: rest) = [] :: pieces sep rest := by
  rw [pieces, if_pos (beq_self_eq_true sep)]

theorem pieces_cons {c : Char} (hc : c ≠ sep) {rest head : List Char} {tail : List (List Char)}
    (h : pieces sep rest = head :: tail) : pieces sep (c :: rest) = (c :: head) :: tail := by
  rw [pieces, if_neg (by simpa using hc), h]

theorem pieces_of_not_mem {cs : List Char} (h : sep ∉ cs) : pieces sep cs = [cs] := by
  induction cs with
  | nil => rfl
  | cons c rest ih =>
    rw [List.mem_cons, not_or] at h
    have hne : (c == sep) = false := beq_eq_false_iff_ne.mpr (Ne.symm h.1)
    rw [pieces, hne, ih h.2]
    rfl

theorem pieces_append {cs rest : List Char} (h : sep ∉ cs) :
    pieces sep (cs ++ sep :: rest) = cs :: pieces sep rest := by
  induction cs with
  | nil => simp [pieces]
  | cons c cs ih =>
    rw [List.mem_cons, not_or] at h
    have hne : (c == sep) = false := beq_eq_false_iff_ne.mpr (Ne.symm h.1)
    rw [List.cons_append, pieces, hne, ih h.2]
    rfl

theorem cutAt_append {cs : List Char} (h : sep ∉ cs) (rest : List Char) :
    cutAt sep (cs ++ sep :: rest) = some (cs, rest) := by
  induction cs with
  | nil => rw [List.nil_append, cutAt, if_pos (beq_self_eq_true sep)]
  | cons c cs ih =>
    rw [List.mem_cons, not_or] at h
    have hne : (c == sep) = false := beq_eq_false_iff_ne.mpr (Ne.symm h.1)
    rw [List.cons_append, cutAt, hne, ih h.2]
    rfl

/-- A text is cut at its first separator. -/
theorem cutAt_eq_some_iff {cs before after : List Char} :
    cutAt sep cs = some (before, after) ↔ cs = before ++ sep :: after ∧ sep ∉ before := by
  constructor
  · intro h
    induction cs generalizing before with
    | nil => cases h
    | cons c cs ih =>
      rw [cutAt] at h
      split at h
      · rename_i hc
        obtain ⟨rfl, rfl⟩ : [] = before ∧ cs = after := by simpa using h
        exact ⟨by rw [List.nil_append, beq_iff_eq.mp hc], List.not_mem_nil⟩
      · rename_i hc
        obtain ⟨⟨front, back⟩, hcut, hparts⟩ := Option.map_eq_some_iff.mp h
        obtain ⟨rfl, rfl⟩ : c :: front = before ∧ back = after := by simpa using hparts
        obtain ⟨rfl, hfront⟩ := ih hcut
        refine ⟨rfl, ?_⟩
        rw [List.mem_cons, not_or]
        exact ⟨fun hsep => hc (beq_iff_eq.mpr hsep.symm), hfront⟩
  · rintro ⟨rfl, hbefore⟩
    exact cutAt_append hbefore after

/-- A text without a separator cannot be cut. -/
theorem cutAt_eq_none_iff {cs : List Char} : cutAt sep cs = none ↔ sep ∉ cs := by
  constructor
  · intro h hsep
    obtain ⟨before, after, hcs, hbefore⟩ := List.eq_append_cons_of_mem hsep
    rw [hcs, cutAt_append hbefore after] at h
    cases h
  · intro h
    cases hcut : cutAt sep cs with
    | none => rfl
    | some parts =>
      obtain ⟨hcs, -⟩ := cutAt_eq_some_iff.mp hcut
      exact absurd (hcs ▸ List.mem_append_right _ List.mem_cons_self) h

/-- What was joined is taken apart again. -/
theorem pieces_intercalate {names : List (List Char)} (hne : names ≠ [])
    (h : ∀ name ∈ names, sep ∉ name) : pieces sep ([sep].intercalate names) = names := by
  induction names with
  | nil => exact absurd rfl hne
  | cons name rest ih =>
    have hname := h name List.mem_cons_self
    cases rest with
    | nil => rw [List.intercalate_singleton, pieces_of_not_mem hname]
    | cons name' rest =>
      rw [List.intercalate_cons_cons, List.append_assoc, List.singleton_append,
        pieces_append hname, ih (by simp) fun other ho => h other (List.mem_cons_of_mem _ ho)]

theorem not_mem_pieces (cs : List Char) : ∀ piece ∈ pieces sep cs, sep ∉ piece := by
  induction cs with
  | nil => simp [pieces]
  | cons c cs ih =>
    rw [pieces]
    split
    · intro piece hpiece
      rcases List.mem_cons.mp hpiece with rfl | hpiece
      · exact List.not_mem_nil
      · exact ih piece hpiece
    · rename_i hne
      have hc : sep ≠ c := by
        rintro rfl
        simp at hne
      split
      · -- The last piece begins with this character.
        intro piece hpiece
        rw [List.mem_singleton.mp hpiece]
        simpa using hc
      · rename_i head tail heq
        rw [heq] at ih
        intro piece hpiece
        rcases List.mem_cons.mp hpiece with rfl | hpiece
        · rw [List.mem_cons, not_or]
          exact ⟨hc, ih head List.mem_cons_self⟩
        · exact ih piece (List.mem_cons_of_mem _ hpiece)

/-- The last character of what was joined is that of the last part. -/
theorem getLast?_intercalate {names : List (List Char)}
    (h : ∀ name ∈ names, name ≠ [] ∧ sep ∉ name) :
    ([sep].intercalate names).getLast? ≠ some sep := by
  induction names with
  | nil => simp
  | cons name rest ih =>
    obtain ⟨hne, hsep⟩ := h name List.mem_cons_self
    cases rest with
    | nil =>
      rw [List.intercalate_singleton]
      exact fun hc => hsep (List.mem_of_getLast? hc)
    | cons name' rest =>
      have hrest := ih fun other ho => h other (List.mem_cons_of_mem _ ho)
      have hend : [sep].intercalate (name' :: rest) ≠ [] := by
        obtain ⟨hne', -⟩ := h name' (by simp)
        cases rest <;> simp [hne']
      rw [List.intercalate_cons_cons, List.getLast?_append, List.getLast?_eq_some_getLast hend,
        Option.some_or, ← List.getLast?_eq_some_getLast hend]
      exact hrest

/-- The pieces of a text are joined to the text again. -/
theorem intercalate_pieces (cs : List Char) : [sep].intercalate (pieces sep cs) = cs := by
  induction cs with
  | nil => rfl
  | cons c rest ih =>
    obtain ⟨head, tail, hpieces⟩ := exists_pieces sep rest
    by_cases hc : c = sep
    · rw [hc, pieces_cons_sep, hpieces, List.intercalate_cons_cons, ← hpieces, ih]
      rfl
    · rw [hpieces] at ih
      rw [pieces_cons hc hpieces]
      cases tail with
      | nil => simpa using ih
      | cons next tail =>
        rw [List.intercalate_cons_cons] at ih ⊢
        simp only [List.cons_append, ih]

/-- The pieces of a text are the texts without a separator that it is joined from. -/
theorem pieces_eq_iff {cs : List Char} {names : List (List Char)} (hne : names ≠ []) :
    pieces sep cs = names ↔ cs = [sep].intercalate names ∧ ∀ name ∈ names, sep ∉ name := by
  constructor
  · rintro rfl
    exact ⟨(intercalate_pieces cs).symm, not_mem_pieces cs⟩
  · rintro ⟨rfl, h⟩
    exact pieces_intercalate hne h

/-- The pieces of the front of a text are those of the text, but for the last one, which may go
    on. -/
theorem pieces_front (sep : Char) (front back : List Char) :
    ∃ init last more tail, pieces sep front = init ++ [last] ∧
      pieces sep (front ++ back) = init ++ (last ++ more) :: tail := by
  induction front with
  | nil =>
    obtain ⟨head, tail, hpieces⟩ := exists_pieces sep back
    exact ⟨[], [], head, tail, rfl, hpieces⟩
  | cons c front ih =>
    obtain ⟨init, last, more, tail, hfront, hall⟩ := ih
    by_cases hc : c = sep
    · refine ⟨[] :: init, last, more, tail, ?_, ?_⟩
      · rw [hc, pieces_cons_sep, hfront, List.cons_append]
      · rw [hc, List.cons_append, pieces_cons_sep, hall, List.cons_append]
    · cases init with
      | nil =>
        exact ⟨[], c :: last, more, tail, pieces_cons hc hfront, pieces_cons hc hall⟩
      | cons head init =>
        exact ⟨(c :: head) :: init, last, more, tail, pieces_cons hc hfront, pieces_cons hc hall⟩

/-- A separator at the end has an empty piece behind it. -/
theorem pieces_concat (cs : List Char) : pieces sep (cs ++ [sep]) = pieces sep cs ++ [[]] := by
  induction cs with
  | nil => rw [List.nil_append, pieces_cons_sep]; rfl
  | cons c rest ih =>
    obtain ⟨head, tail, hpieces⟩ := exists_pieces sep rest
    rw [hpieces, List.cons_append] at ih
    by_cases hc : c = sep
    · rw [hc, List.cons_append, pieces_cons_sep, pieces_cons_sep, ih, hpieces]
      rfl
    · rw [List.cons_append, pieces_cons hc ih, pieces_cons hc hpieces]
      rfl

theorem stripPrefix?_eq_some_iff {pre cs rest : List Char} :
    stripPrefix? pre cs = some rest ↔ cs = pre ++ rest := by
  induction pre generalizing cs with
  | nil => simp [stripPrefix?]
  | cons p ps ih =>
    cases cs with
    | nil => simp [stripPrefix?]
    | cons c cs =>
      rw [stripPrefix?]
      split
      · rename_i hc
        simp [beq_iff_eq.mp hc, ih]
      · rename_i hc
        simp [Ne.symm (mt beq_iff_eq.mpr hc)]

end DeploymentBackup.Text
