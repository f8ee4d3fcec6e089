import DeploymentBackup.Proofs.Digests.Record
import Mathlib.Data.List.Sort

namespace DeploymentBackup.Digests

/-!
# Where two records differ

A difference between two records is a path that is stored in one of them and looked up with another
result in the other one. The list of differences is put together from two halves that are found in
different ways; it is complete, says nothing twice, and is the same seen from either side.

* `paths`, `mem_paths_iff` — the stored paths, and `mem_entries_iff` the entries.
* `dotted`, `get?_dotted` — paths with `./` in front.
* `mem_differences_iff`, `pairwise_differences` — what is listed, and in which order.
* `differences_explain` — differences tell of a disagreement and of nothing else.
-/

/-- The paths of a record, as they are stored. -/
def paths (d : Digests) : List String :=
  d.entries.map (·.1)

/-- A path with a number of `./` in front. -/
def dotted (n : Nat) (path : String) : String :=
  String.ofList ((List.replicate n ['.', '/']).flatten ++ path.toList)

variable {l r d : Digests} {path : String}

/-! ### Stored paths -/

/-- What is left of a path does not start with a `./` again. -/
theorem not_dotted_barePath (cs : List Char) : ¬ ['.', '/'] <+: barePath cs := by
  fun_induction barePath cs with
  | case1 rest ih => exact ih
  | case2 cs hplain =>
    rintro ⟨rest, rfl⟩
    exact hplain rest rfl

theorem not_dotted_of_mem_paths (h : path ∈ d.paths) : ¬ ['.', '/'] <+: path.toList := by
  obtain ⟨e, he, rfl⟩ := List.mem_map.mp h
  have hbare := not_dotted_barePath e.1.toList
  rwa [← String.toList_ofList (l := barePath _), ← bare, d.bare_keys e he] at hbare

theorem bare_dotted (n : Nat) (path : String) : bare (dotted n path) = bare path := by
  rw [bare, bare, dotted, String.toList_ofList]
  induction n with
  | zero => rfl
  | succ n ih => exact ih

theorem get?_dotted (d : Digests) (n : Nat) (path : String) :
    d.get? (dotted n path) = d.get? path := by
  rw [get?, get?, bare_dotted]

/-- The entries of a record are what is found in it, under paths as they are stored. -/
theorem mem_entries_iff {e : String × String} :
    e ∈ d.entries ↔ bare e.1 = e.1 ∧ d.get? e.1 = some e.2 := by
  rw [get?_eq_some_iff]
  constructor
  · intro he
    have hbare := d.bare_keys e he
    exact ⟨hbare, hbare.symm ▸ he⟩
  · rintro ⟨hbare, he⟩
    rwa [hbare] at he

theorem mem_paths_iff :
    path ∈ d.paths ↔ bare path = path ∧ ∃ digest, d.get? path = some digest := by
  constructor
  · intro h
    obtain ⟨e, he, rfl⟩ := List.mem_map.mp h
    obtain ⟨hbare, hfound⟩ := mem_entries_iff.mp he
    exact ⟨hbare, e.2, hfound⟩
  · rintro ⟨hbare, digest, hfound⟩
    exact List.mem_map_of_mem (mem_entries_iff (e := (path, digest)).mpr ⟨hbare, hfound⟩)

/-! ### The two halves -/

/-- A path of the first half is stored, and the other record has another digest for it or none. -/
theorem mem_changed_iff :
    path ∈ (l.entries.filter fun e => r.get? e.1 ≠ some e.2).map (·.1) ↔
      path ∈ l.paths ∧ l.get? path ≠ r.get? path := by
  simp only [List.mem_map, List.mem_filter, decide_eq_true_eq]
  constructor
  · rintro ⟨e, ⟨he, hdiffers⟩, rfl⟩
    have hfound := (mem_entries_iff.mp he).2
    exact ⟨List.mem_map_of_mem he, fun hsame => hdiffers (hsame ▸ hfound)⟩
  · rintro ⟨hpath, hdiffers⟩
    obtain ⟨e, he, rfl⟩ := List.mem_map.mp hpath
    have hfound := (mem_entries_iff.mp he).2
    exact ⟨e, ⟨he, fun hother => hdiffers (hfound.trans hother.symm)⟩, rfl⟩

/-- A path of the second half is stored by the other record alone. -/
theorem mem_added_iff :
    path ∈ (r.entries.filter fun e => (l.get? e.1).isNone).map (·.1) ↔
      path ∈ r.paths ∧ path ∉ l.paths := by
  have hnone : path ∈ r.paths → ((l.get? path).isNone = true ↔ path ∉ l.paths) := by
    intro hpath
    have hbare := (mem_paths_iff.mp hpath).1
    rw [mem_paths_iff, Option.isNone_iff_eq_none, Option.eq_none_iff_forall_ne_some]
    simp [hbare]
  constructor
  · intro h
    obtain ⟨e, he, rfl⟩ := List.mem_map.mp h
    obtain ⟨he, habsent⟩ := List.mem_filter.mp he
    have hpath : e.1 ∈ r.paths := List.mem_map_of_mem he
    exact ⟨hpath, (hnone hpath).mp habsent⟩
  · rintro ⟨hpath, habsent⟩
    obtain ⟨e, he, rfl⟩ := List.mem_map.mp hpath
    exact List.mem_map_of_mem (List.mem_filter.mpr ⟨he, (hnone hpath).mpr habsent⟩)

theorem nodup_filter_paths (d : Digests) (keep : String × String → Bool) :
    ((d.entries.filter keep).map (·.1)).Nodup :=
  d.nodup_keys.sublist (List.filter_sublist.map _)

/-! ### The whole list -/

/-- A path is listed exactly when it is stored on one side and its look-ups differ. -/
theorem mem_differences_iff :
    path ∈ l.differences r ↔ (path ∈ l.paths ∨ path ∈ r.paths) ∧ l.get? path ≠ r.get? path := by
  rw [differences, List.mem_mergeSort, List.mem_append, mem_changed_iff, mem_added_iff]
  constructor
  · rintro (⟨hpath, hdiffers⟩ | ⟨hpath, habsent⟩)
    · exact ⟨.inl hpath, hdiffers⟩
    · refine ⟨.inr hpath, fun hsame => habsent ?_⟩
      obtain ⟨hbare, digest, hfound⟩ := mem_paths_iff.mp hpath
      exact mem_paths_iff.mpr ⟨hbare, digest, hsame.trans hfound⟩
  · rintro ⟨hpath, hdiffers⟩
    by_cases hl : path ∈ l.paths
    · exact .inl ⟨hl, hdiffers⟩
    · exact .inr ⟨hpath.resolve_left hl, hl⟩

theorem pairwise_differences (l r : Digests) : (l.differences r).Pairwise (· < ·) := by
  have hsorted : (l.differences r).Pairwise (· ≤ ·) := by
    have hmerge : (l.differences r).Pairwise fun a b => decide (a ≤ b) = true :=
      List.pairwise_mergeSort (fun a b c => by simpa using String.le_trans)
        (fun a b => by simpa using String.le_total a b) _
    simpa using hmerge
  have hnodup : (l.differences r).Nodup := by
    rw [differences, (List.mergeSort_perm _ _).nodup_iff, List.nodup_append]
    refine ⟨nodup_filter_paths l _, nodup_filter_paths r _, ?_⟩
    -- The first half is stored in `l`, and the second half is not.
    rintro first hfirst second hsecond rfl
    exact (mem_added_iff.mp hsecond).2 (mem_changed_iff.mp hfirst).1
  exact (hsorted.and hnodup).imp fun h => Std.lt_of_le_of_ne h.1 h.2

theorem differences_comm (l r : Digests) : l.differences r = r.differences l :=
  (pairwise_differences l r).eq_of_mem_iff (pairwise_differences r l) fun path => by
    rw [mem_differences_iff, mem_differences_iff, or_comm, ne_comm]

theorem differences_eq_nil_iff : l.differences r = [] ↔ l.agrees r = true := by
  rw [agrees, decide_eq_true_iff]
  constructor
  · intro hnil
    have hlookup (path : String) (hpath : path ∈ l.paths ∨ path ∈ r.paths) :
        l.get? path = r.get? path := by
      by_contra hdiffers
      have hmem := mem_differences_iff.mpr ⟨hpath, hdiffers⟩
      rw [hnil] at hmem
      cases hmem
    refine (eq_iff_mem l r).mpr fun e => ?_
    rw [mem_entries_iff, mem_entries_iff]
    refine and_congr_right fun hbare => ⟨fun hfound => ?_, fun hfound => ?_⟩
    · rw [← hlookup e.1 (.inl (mem_paths_iff.mpr ⟨hbare, e.2, hfound⟩)), hfound]
    · rw [hlookup e.1 (.inr (mem_paths_iff.mpr ⟨hbare, e.2, hfound⟩)), hfound]
  · rintro rfl
    refine List.eq_nil_iff_forall_not_mem.mpr fun path hpath => ?_
    exact (mem_differences_iff.mp hpath).2 rfl

/-- Whatever two records were made from, no stored path starts with `./`, and a path with any number
    of these in front is looked up as the path itself. Their differences are the stored paths whose
    look-ups differ, each once and in ascending order, so they are the same from either side, and
    there are none exactly when the records agree. -/
theorem differences_explain (l r : Digests) :
    (∀ path ∈ l.paths, ¬ ['.', '/'] <+: path.toList) ∧
      (∀ n path, l.get? (dotted n path) = l.get? path) ∧
      (l.differences r).Pairwise (· < ·) ∧
      (∀ path, path ∈ l.differences r ↔
        (path ∈ l.paths ∨ path ∈ r.paths) ∧ l.get? path ≠ r.get? path) ∧
      l.differences r = r.differences l ∧
      (l.differences r = [] ↔ l.agrees r = true) :=
  ⟨fun _ => not_dotted_of_mem_paths, get?_dotted l, pairwise_differences l r,
    fun _ => mem_differences_iff, differences_comm l r, differences_eq_nil_iff⟩

end DeploymentBackup.Digests
