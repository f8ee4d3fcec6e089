import DeploymentBackup.Digests.Basic
import Mathlib.Data.List.Perm.Basic
import Mathlib.Data.List.Nodup

namespace DeploymentBackup.Digests

/-!
# What a record holds

A record is what its entries are, in whatever order they were recorded: of files with paths of their
own it holds each one, and nothing else.

* `mem_put_iff`, `mem_insert` — one file recorded.
* `eq_iff_mem` — records are equal when they hold the same entries.
* `get?_eq_some_iff`, `get?_insert` — what is looked up.
* `entryFor`, `mem_ofList` — the files of a list.
* `agrees_ofList` — when the records of two lists agree.
-/

/-- The entry under which a file is recorded. -/
def entryFor (file : String × String) : String × String :=
  (bare file.1, file.2)

/-! ### One entry -/

/-- An entry takes the place of the one with its path, and every other entry stays. -/
theorem mem_put_iff {path digest : String} {entries : List (String × String)}
    (h : entries.Pairwise (·.1 < ·.1)) (e : String × String) :
    e ∈ put path digest entries ↔ e = (path, digest) ∨ (e ∈ entries ∧ e.1 ≠ path) := by
  -- An entry whose path is not above `path` is not a later one of entries above `path`.
  have hother {rest : List (String × String)} (habove : ∀ f ∈ rest, path < f.1) :
      e ∈ rest ↔ e ∈ rest ∧ e.1 ≠ path :=
    ⟨fun he => ⟨he, fun hpath => String.lt_irrefl path (hpath ▸ habove e he)⟩, And.left⟩
  induction entries with
  | nil => simp [put]
  | cons head rest ih =>
    obtain ⟨p, d⟩ := head
    obtain ⟨hfirst, hrest⟩ := List.pairwise_cons.mp h
    rw [put]
    split
    · rename_i hsame
      subst hsame
      rw [List.mem_cons, List.mem_cons, hother hfirst]
      grind
    · split
      · rename_i hdifferent hbefore
        have habove : ∀ f ∈ (p, d) :: rest, path < f.1 := by
          intro f hf
          rcases List.mem_cons.mp hf with rfl | hf
          · exact hbefore
          · exact String.lt_trans hbefore (hfirst f hf)
        rw [List.mem_cons]
        exact or_congr_right (hother habove)
      · rename_i hdifferent _
        have hmore : e ∈ put path digest rest ↔ e = (path, digest) ∨ (e ∈ rest ∧ e.1 ≠ path) :=
          ih hrest
        rw [List.mem_cons, List.mem_cons, hmore]
        grind

theorem mem_insert (d : Digests) (path digest : String) (e : String × String) :
    e ∈ (d.insert path digest).entries ↔
      e = entryFor (path, digest) ∨ (e ∈ d.entries ∧ e.1 ≠ bare path) :=
  mem_put_iff d.sorted e

/-! ### Equal records -/

theorem nodup_entries (d : Digests) : d.entries.Nodup := by
  refine d.sorted.imp fun {a b} hlt hab => ?_
  rw [hab] at hlt
  exact String.lt_irrefl _ hlt

/-- A record has no order of its own. -/
theorem eq_iff_mem (a b : Digests) : a = b ↔ ∀ e, e ∈ a.entries ↔ e ∈ b.entries := by
  constructor
  · rintro rfl e
    exact Iff.rfl
  · intro h
    have hperm : a.entries.Perm b.entries :=
      (List.perm_ext_iff_of_nodup a.nodup_entries b.nodup_entries).mpr h
    have hentries : a.entries = b.entries :=
      hperm.eq_of_pairwise (fun x y _ _ hxy hyx => absurd (String.lt_trans hxy hyx)
        (String.lt_irrefl x.1)) a.sorted b.sorted
    cases a
    cases b
    cases hentries
    rfl

/-! ### Looking up -/

theorem nodup_keys (d : Digests) : (d.entries.map (·.1)).Nodup := by
  refine List.pairwise_map.mpr (d.sorted.imp fun {a b} hlt hab => ?_)
  rw [hab] at hlt
  exact String.lt_irrefl _ hlt

/-- A digest is found under a path exactly when there is an entry of both. -/
theorem get?_eq_some_iff {d : Digests} {path digest : String} :
    d.get? path = some digest ↔ (bare path, digest) ∈ d.entries := by
  rw [get?, Option.map_eq_some_iff]
  constructor
  · rintro ⟨⟨key, found⟩, hfind, rfl⟩
    obtain rfl : key = bare path := by simpa using List.find?_some hfind
    exact List.mem_of_find?_eq_some hfind
  · intro h
    cases hfind : d.entries.find? (·.1 = bare path) with
    | none => simpa using List.find?_eq_none.mp hfind _ h
    | some e =>
      -- No two entries have one path, so the entry that is found first is the one.
      have hkey : e.1 = bare path := by simpa using List.find?_some hfind
      have he : e = (bare path, digest) :=
        List.inj_on_of_nodup_map d.nodup_keys (List.mem_of_find?_eq_some hfind) h hkey
      exact ⟨e, rfl, by rw [he]⟩

/-- The digest that was recorded last is found under its path, and every other path is looked up as
    before. -/
theorem get?_insert (d : Digests) (name digest path : String) :
    (d.insert name digest).get? path =
      if bare name = bare path then some digest else d.get? path := by
  ext found
  rw [get?_eq_some_iff, mem_insert, entryFor]
  split
  · rename_i hsame
    simp [hsame, eq_comm]
  · rename_i hother
    simp [get?_eq_some_iff, Ne.symm hother]

/-! ### The files of a list -/

theorem mem_foldl_insert {files : List (String × String)} {d : Digests}
    (hkeys : (files.map (bare ·.1)).Nodup)
    (hfresh : ∀ e ∈ d.entries, e.1 ∉ files.map (bare ·.1)) (e : String × String) :
    e ∈ (files.foldl (fun d (path, digest) => d.insert path digest) d).entries ↔
      e ∈ d.entries ∨ e ∈ files.map entryFor := by
  induction files generalizing d with
  | nil => simp
  | cons file files ih =>
    obtain ⟨path, digest⟩ := file
    rw [List.map_cons, List.nodup_cons] at hkeys
    have hinsert : ∀ f ∈ (d.insert path digest).entries, f.1 ∉ files.map (bare ·.1) := by
      intro f hf
      rcases (mem_insert d path digest f).mp hf with rfl | ⟨hf, -⟩
      · exact hkeys.1
      · exact fun hc => hfresh f hf (List.mem_cons_of_mem _ hc)
    have hkept : e ∈ d.entries → e.1 ≠ bare path :=
      fun he hc => hfresh e he (hc ▸ List.mem_cons_self)
    rw [List.foldl_cons, ih hkeys.2 hinsert, mem_insert, List.map_cons, List.mem_cons]
    grind

/-- The record of files with paths of their own holds an entry for each of them. -/
theorem mem_ofList {files : List (String × String)} (h : (files.map (bare ·.1)).Nodup)
    (e : String × String) : e ∈ (ofList files).entries ↔ e ∈ files.map entryFor := by
  rw [ofList, mem_foldl_insert h fun f hf => by cases hf]
  simp [empty]

/-- Two records of files with paths of their own agree when they are of the same entries. -/
theorem agrees_ofList {files files' : List (String × String)}
    (h : (files.map (bare ·.1)).Nodup) (h' : (files'.map (bare ·.1)).Nodup) :
    (ofList files).agrees (ofList files') = true ↔
      ∀ e, e ∈ files.map entryFor ↔ e ∈ files'.map entryFor := by
  rw [agrees, decide_eq_true_iff, eq_iff_mem]
  simp only [mem_ofList h, mem_ofList h']

end DeploymentBackup.Digests
