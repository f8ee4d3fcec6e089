import DeploymentBackup.Text.Ascending
import Mathlib.Data.List.Sort

namespace DeploymentBackup.Text

/-!
# Texts in strictly ascending order

Texts in ascending order, each of them once, are a normal form: neither the order in which they were
given nor how often each was given is left in it.

* `pairwise_ascending`, `nodup_ascending` — the order.
* `ascending_eq` — what the normal form depends on.
-/

theorem pairwise_place {s : String} {texts : List String} (h : texts.Pairwise (· < ·)) :
    (place s texts).Pairwise (· < ·) := by
  induction texts with
  | nil => simp [place]
  | cons t rest ih =>
    obtain ⟨hfirst, hrest⟩ := List.pairwise_cons.mp h
    rw [place]
    split
    · exact h
    · rename_i hne
      split
      · rename_i hbefore
        refine List.pairwise_cons.mpr ⟨fun x hx => ?_, h⟩
        rcases List.mem_cons.mp hx with rfl | hx
        · exact hbefore
        · exact String.lt_trans hbefore (hfirst x hx)
      · rename_i hnot
        refine List.pairwise_cons.mpr ⟨fun x hx => ?_, ih hrest⟩
        rcases mem_place.mp hx with rfl | hx
        · -- Neither equal nor smaller: the new text comes behind `t`.
          exact Std.lt_of_le_of_ne (String.not_lt.mp hnot) (Ne.symm hne)
        · exact hfirst x hx

theorem pairwise_ascending (texts : List String) : (ascending texts).Pairwise (· < ·) := by
  induction texts with
  | nil => exact List.Pairwise.nil
  | cons s rest ih => exact pairwise_place ih

theorem nodup_ascending (texts : List String) : (ascending texts).Nodup := by
  refine (pairwise_ascending texts).imp fun {a b} hlt hab => ?_
  rw [hab] at hlt
  exact String.lt_irrefl _ hlt

/-- The same texts have the same ascending order. -/
theorem ascending_eq {texts texts' : List String} (h : ∀ x, x ∈ texts ↔ x ∈ texts') :
    ascending texts = ascending texts' :=
  (pairwise_ascending texts).eq_of_mem_iff (pairwise_ascending texts') fun x => by simp [h x]

end DeploymentBackup.Text
