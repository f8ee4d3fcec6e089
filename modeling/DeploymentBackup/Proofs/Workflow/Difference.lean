import DeploymentBackup.Proofs.Workflow.Compatible

namespace DeploymentBackup

open Text Artifact

/-!
# Why an artifact does not fit a deployment

Whether the recorded instances are those of a deployment is decided on sorted lists. What is
reported when they are not is found in another way: the identifiers of one list are struck out of
the other one by one, in both directions. Here the two are shown to agree, for lists in any order
and with any repetitions.

* `scan`, `scan_eq_leftOver` — an order in which identifiers are struck out that keeps none of
  those that are left in place; it makes no difference.
* `Explains` — what a report has to say about two lists.
* `explains_iff` — two lists that differ have one such report, and it is the one that is given.
* `agreement_explained` — the decision and the report.
-/

namespace Workflow

/-! ### Striking out -/

/-- A list without the identifier at a place, which is taken by the last one. -/
def swapRemove (ids : List Identifier) (place : Nat) : List Identifier :=
  match ids.getLast? with
  | none => []
  | some last => (ids.set place last).dropLast

/-- Strikes the identifiers of a list out of `remaining`, one after the other, and returns those
    that are not in it by then. -/
def scan (remaining : List Identifier) : List Identifier → List Identifier
  | [] => []
  | id :: rest =>
    match remaining.idxOf? id with
    | some place => scan (swapRemove remaining place) rest
    | none => id :: scan remaining rest

theorem swapRemove_perm {ids : List Identifier} {place : Nat} (h : place < ids.length) :
    (swapRemove ids place).Perm (ids.eraseIdx place) := by
  have hne : ids ≠ [] := List.ne_nil_of_length_pos (by omega)
  obtain ⟨front, last, rfl⟩ := (List.eq_nil_or_concat' ids).resolve_left hne
  unfold swapRemove
  rw [List.getLast?_concat]
  simp only
  rw [List.length_append, List.length_singleton] at h
  rcases Nat.lt_or_ge place front.length with hlt | hge
  · rw [List.set_append_left _ _ hlt, List.dropLast_concat, List.eraseIdx_append_of_lt_length hlt]
    calc
      (front.set place last).Perm (last :: front.eraseIdx place) :=
        List.set_perm_cons_eraseIdx hlt last
      List.Perm _ (front.eraseIdx place ++ [last]) := (List.perm_append_singleton _ _).symm
  · -- The identifier is the last one itself.
    obtain rfl : place = front.length := by omega
    rw [List.set_append_right _ _ (Nat.le_refl _),
      List.eraseIdx_append_of_length_le (Nat.le_refl _)]
    simp

/-- It does not matter in which order the identifiers that are left over are held. -/
theorem scan_eq_leftOver {left right remaining : List Identifier} (h : remaining.Perm right) :
    scan remaining left = leftOver left right := by
  induction left generalizing right remaining with
  | nil => rfl
  | cons id rest ih =>
    unfold scan leftOver
    cases hplace : remaining.idxOf? id with
    | some place =>
      obtain ⟨hlt, hget, -⟩ := List.idxOf?_eq_some_iff.mp hplace
      have hmem : id ∈ remaining := hget ▸ List.getElem_mem hlt
      rw [if_pos (List.contains_iff_mem.mpr (h.mem_iff.mp hmem))]
      have herase : remaining.erase id = remaining.eraseIdx place := by
        rw [List.erase_eq_eraseIdx, hplace]
      refine ih ?_
      calc
        (swapRemove remaining place).Perm (remaining.eraseIdx place) := swapRemove_perm hlt
        _ = remaining.erase id := herase.symm
        List.Perm _ (right.erase id) := h.erase id
    | none =>
      have hnot : id ∉ right := fun hmem => List.idxOf?_eq_none_iff.mp hplace (h.mem_iff.mpr hmem)
      rw [if_neg (mt List.contains_iff_mem.mp hnot), ih h]

/-! ### Reports -/

/-- Two lists tell what `recorded` has more of and less of than `present`: each is in ascending
    order, they share nothing, they are not both empty, and each identifier stands in them as often
    as it makes a difference. -/
structure Explains (recorded present missing unexpected : List Identifier) : Prop where
  missing_sorted : missing.Pairwise fun a b => Identifier.le a b
  unexpected_sorted : unexpected.Pairwise fun a b => Identifier.le a b
  disjoint : ∀ id ∈ missing, id ∉ unexpected
  some_differ : missing ≠ [] ∨ unexpected ≠ []
  counts : ∀ id, (missing.count id : Int) - unexpected.count id =
    recorded.count id - present.count id

theorem count_difference (id : Identifier) (left right : List Identifier) :
    (difference left right).count id = left.count id - right.count id := by
  unfold difference
  rw [(Identifier.perm_sort _).count_eq, count_leftOver]

theorem difference_sorted (left right : List Identifier) :
    (difference left right).Pairwise fun a b => Identifier.le a b :=
  Identifier.pairwise_sort _

variable {recorded present missing unexpected : List Identifier}

/-- Nothing shared: what one list has more of is not in the other one. -/
theorem Explains.count_eq (h : Explains recorded present missing unexpected) (id : Identifier) :
    missing.count id = recorded.count id - present.count id ∧
      unexpected.count id = present.count id - recorded.count id := by
  have hcounts := h.counts id
  by_cases hmem : id ∈ missing
  · have hzero := List.count_eq_zero_of_not_mem (h.disjoint id hmem)
    omega
  · have hzero := List.count_eq_zero_of_not_mem hmem
    omega

/-- Two lists have a report when they differ by more than their order, and it is what is left over
    of each. -/
theorem explains_iff : Explains recorded present missing unexpected ↔
    ¬ recorded.Perm present ∧ missing = difference recorded present ∧
      unexpected = difference present recorded := by
  constructor
  · intro h
    have hmissing : missing.Perm (difference recorded present) :=
      List.perm_iff_count.mpr fun id => by rw [count_difference, (h.count_eq id).1]
    have hunexpected : unexpected.Perm (difference present recorded) :=
      List.perm_iff_count.mpr fun id => by rw [count_difference, (h.count_eq id).2]
    refine ⟨fun hperm => ?_,
      Identifier.eq_of_sorted h.missing_sorted (difference_sorted _ _) hmissing,
      Identifier.eq_of_sorted h.unexpected_sorted (difference_sorted _ _) hunexpected⟩
    -- Of a permutation nothing would be left over.
    have hnone {ids : List Identifier} (hcount : ∀ id, ids.count id = 0) : ids = [] :=
      List.eq_nil_iff_forall_not_mem.mpr fun id => List.count_eq_zero.mp (hcount id)
    have hsame (id : Identifier) := hperm.count_eq id
    exact h.some_differ.elim
      (fun hne => hne (hnone fun id => by rw [(h.count_eq id).1, hsame id, Nat.sub_self]))
      (fun hne => hne (hnone fun id => by rw [(h.count_eq id).2, hsame id, Nat.sub_self]))
  · rintro ⟨hperm, rfl, rfl⟩
    refine ⟨difference_sorted _ _, difference_sorted _ _, ?_, ?_, ?_⟩
    · intro id hmissing hunexpected
      have hmore := List.count_pos_iff.mpr hmissing
      have hless := List.count_pos_iff.mpr hunexpected
      rw [count_difference] at hmore hless
      omega
    · -- Were nothing left over of either, each identifier would be in both equally often.
      by_contra hnone
      rw [not_or, not_not, not_not] at hnone
      refine hperm (List.perm_iff_count.mpr fun id => ?_)
      have hmissing := count_difference id recorded present
      have hunexpected := count_difference id present recorded
      rw [hnone.1, List.count_nil] at hmissing
      rw [hnone.2, List.count_nil] at hunexpected
      omega
    · intro id
      rw [count_difference, count_difference]
      omega

/-! ### The decision and its report -/

/-- The recorded instances agree with some identifiers exactly when the two are permutations of
    each other. When they are not, the check of a deployment in which these are the instances with
    data of their own fails with the one report that explains the difference; it is found as well
    by a scan that does not keep in place what is left to be struck out. -/
theorem agreement_explained {ε : Type} {a : Artifact} {m : Metadata} {disk : Disk}
    (hmetadata : a.metadata disk = .ok m) (present : List Identifier) :
    (∃ agree, a.agreesWith present disk = .ok agree ∧
      (agree = true ↔ m.instanceIdentifiers.Perm present)) ∧
    ∀ holdings : List Holding, (holdings.filter (·.holdsOwnData)).map (·.id) = present →
      (m.instanceIdentifiers.Perm present →
        checkCompatibility (ε := ε) a holdings disk = .ok ()) ∧
      (¬ m.instanceIdentifiers.Perm present → ∃ missing unexpected,
        checkCompatibility (ε := ε) a holdings disk = .error (.compatibility missing unexpected) ∧
        missing = Identifier.sort (scan present m.instanceIdentifiers) ∧
        unexpected = Identifier.sort (scan m.instanceIdentifiers present) ∧
        Explains m.instanceIdentifiers present missing unexpected) := by
  constructor
  · have hagree : a.agreesWith present disk = .ok (decide
        (Identifier.sort m.instanceIdentifiers = Identifier.sort present)) := by
      unfold agreesWith instanceIdentifiers
      rw [hmetadata]
      rfl
    refine ⟨_, hagree, ?_⟩
    rw [decide_eq_true_iff, Identifier.sort_eq_sort_iff]
  · intro holdings hpresent
    -- Lists in any order agree; otherwise what either side has left over is reported.
    obtain ⟨hfits, hdiffers⟩ := checkCompatibility_eq (ε := ε) hmetadata hpresent
    refine ⟨hfits, fun hperm => ⟨_, _, hdiffers hperm, ?_, ?_, explains_iff.mpr ⟨hperm, rfl, rfl⟩⟩⟩
    · rw [scan_eq_leftOver (List.Perm.refl _), difference]
    · rw [scan_eq_leftOver (List.Perm.refl _), difference]

/-- One instance is recorded, and two that have its identifier are there: the second one is
    unexpected. -/
theorem agreement_explained_twice :
    let own := Identifier.indexed "a" "0"
    let holding : Holding := ⟨own, true, true, true⟩
    ∃ (a : Artifact) (disk : Disk), a.agreesWith [own, own] disk = .ok false ∧
      checkCompatibility (ε := Unit) a [holding, holding] disk =
        .error (.compatibility [] [own]) ∧
      Explains [own] [own, own] [] [own] := by
  intro own holding
  obtain ⟨a, disk, hsound, hrecord, -⟩ := exists_record ⟨none, none, [⟨"a", "0", .empty⟩], []⟩
  obtain ⟨⟨agree, hagrees, hagree⟩, hcheck⟩ := agreement_explained (ε := Unit)
    (metadata_of_hasRecord hsound hrecord) [own, own]
  have hperm : ¬ [own].Perm [own, own] := fun hperm => absurd hperm.length_eq (by decide)
  obtain ⟨missing, unexpected, herror, hmissing, hunexpected, hexplains⟩ :=
    (hcheck [holding, holding] rfl).2 hperm
  have hnone : missing = [] := by
    calc
      missing = Identifier.sort [] := hmissing
      _ = [] := List.mergeSort_nil
  have hone : unexpected = [own] := by
    calc
      unexpected = Identifier.sort [own] := hunexpected
      _ = [own] := List.mergeSort_singleton own
  rw [hnone, hone] at herror hexplains
  refine ⟨a, disk, ?_, herror, hexplains⟩
  rw [hagrees, Bool.eq_false_iff.mpr (mt hagree.mp hperm)]

end Workflow

end DeploymentBackup
