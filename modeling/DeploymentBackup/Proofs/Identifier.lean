import DeploymentBackup.Identifier

namespace DeploymentBackup.Identifier

/-!
# The order of identifiers

An identifier is its name and its index. The order is total, so that sorting is a normal form of
lists: two lists have the same one exactly when each identifier occurs in both equally often.

* `eq_iff_name_index` — what an identifier consists of.
* `le_total`, `le_trans`, `le_antisymm` — the order.
* `pairwise_sort`, `perm_sort`, `eq_of_sorted` — what sorting gives.
* `sort_eq_sort_iff` — what sorting forgets.
-/

theorem eq_iff_name_index {id other : Identifier} :
    id = other ↔ id.name = other.name ∧ id.index = other.index := by
  obtain ⟨name, index, hindex⟩ := id
  obtain ⟨name', index', hindex'⟩ := other
  simp

/-! ### Indices -/

theorem indexLe_total (i j : Option String) : indexLe i j || indexLe j i := by
  rcases i with _ | i <;> rcases j with _ | j
  · rfl
  · rfl
  · rfl
  · simpa [indexLe] using String.le_total i j

theorem indexLe_trans {i j k : Option String} (hij : indexLe i j) (hjk : indexLe j k) :
    indexLe i k := by
  rcases i with _ | i
  · rfl
  · rcases j with _ | j
    · cases hij
    · rcases k with _ | k
      · cases hjk
      · simp only [indexLe, decide_eq_true_eq] at hij hjk ⊢
        exact String.le_trans hij hjk

theorem indexLe_antisymm {i j : Option String} (hij : indexLe i j) (hji : indexLe j i) :
    i = j := by
  rcases i with _ | i <;> rcases j with _ | j
  · rfl
  · cases hji
  · cases hij
  · simp only [indexLe, decide_eq_true_eq] at hij hji
    rw [String.le_antisymm hij hji]

/-! ### Identifiers -/

theorem le_total (a b : Identifier) : le a b || le b a := by
  unfold le
  by_cases h : a.name = b.name
  · rw [if_pos h, if_pos h.symm]
    exact indexLe_total a.index b.index
  · rw [if_neg h, if_neg (Ne.symm h)]
    simpa using String.le_total a.name b.name

theorem le_trans {a b c : Identifier} (hab : le a b) (hbc : le b c) : le a c := by
  unfold le at *
  by_cases h₁ : a.name = b.name
  · rw [if_pos h₁] at hab
    rw [h₁]
    by_cases h₂ : b.name = c.name
    · rw [if_pos h₂] at hbc ⊢
      exact indexLe_trans hab hbc
    · rw [if_neg h₂] at hbc ⊢
      exact hbc
  · rw [if_neg h₁] at hab
    by_cases h₂ : b.name = c.name
    · rw [← h₂, if_neg h₁]
      exact hab
    · rw [if_neg h₂] at hbc
      simp only [decide_eq_true_eq] at hab hbc
      have hne : a.name ≠ c.name := by
        intro h
        rw [← h] at hbc
        exact h₁ (String.le_antisymm hab hbc)
      rw [if_neg hne, decide_eq_true_eq]
      exact String.le_trans hab hbc

theorem le_antisymm {a b : Identifier} (hab : le a b) (hba : le b a) : a = b := by
  unfold le at *
  by_cases h : a.name = b.name
  · rw [if_pos h] at hab
    rw [if_pos h.symm] at hba
    obtain ⟨name, index, _⟩ := a
    obtain ⟨name', index', _⟩ := b
    obtain rfl : name = name' := h
    obtain rfl : index = index' := indexLe_antisymm hab hba
    rfl
  · rw [if_neg h, decide_eq_true_eq] at hab
    rw [if_neg (Ne.symm h), decide_eq_true_eq] at hba
    exact absurd (String.le_antisymm hab hba) h

/-! ### Sorting -/

theorem pairwise_sort (ids : List Identifier) : (sort ids).Pairwise fun a b => le a b := by
  have htrans : ∀ a b c : Identifier, le a b = true → le b c = true → le a c = true :=
    fun _ _ _ hab hbc => le_trans hab hbc
  exact List.pairwise_mergeSort htrans le_total ids

theorem perm_sort (ids : List Identifier) : (sort ids).Perm ids :=
  List.mergeSort_perm ids le

/-- Ascending lists are the same when they hold the same, each as often. -/
theorem eq_of_sorted {ids ids' : List Identifier} (hsorted : ids.Pairwise fun a b => le a b)
    (hsorted' : ids'.Pairwise fun a b => le a b) (hperm : ids.Perm ids') : ids = ids' :=
  hperm.eq_of_pairwise (fun _ _ _ _ hab hba => le_antisymm hab hba) hsorted hsorted'

/-- Lists are sorted into the same one when they hold the same, each as often. -/
theorem sort_eq_sort_iff (ids ids' : List Identifier) : sort ids = sort ids' ↔ ids.Perm ids' := by
  constructor
  · intro h
    calc
      ids.Perm (sort ids) := (perm_sort ids).symm
      _ = sort ids' := h
      List.Perm _ ids' := perm_sort ids'
  · intro h
    exact eq_of_sorted (pairwise_sort ids) (pairwise_sort ids')
      (((perm_sort ids).trans h).trans (perm_sort ids').symm)

end DeploymentBackup.Identifier
