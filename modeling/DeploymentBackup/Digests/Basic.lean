import DeploymentBackup.Text.Lines

namespace DeploymentBackup

/-!
# Digests of files

A record of the files of a blob: each relative path with the digest of its contents. Two
records are compared file by file, which is how a stored blob is checked against the remote
data it was taken from.

* `Digests` — the record; ascending paths without a leading `./`.
* `Digests.insert`, `Digests.get?` — one file.
* `Digests.ofList` — the files of a list, a later entry replacing an earlier one.
* `Digests.differences` — the paths on which two records disagree.
-/

namespace Digests

/-- A path without any number of `./` in front. -/
def barePath : List Char → List Char
  | '.' :: '/' :: rest => barePath rest
  | cs => cs

/-- A path as it is stored in a record. -/
def bare (path : String) : String :=
  String.ofList (barePath path.toList)

theorem barePath_barePath (cs : List Char) : barePath (barePath cs) = barePath cs := by
  fun_induction barePath cs with
  | case1 rest ih => exact ih
  | case2 cs h => rw [barePath]; exact h

theorem bare_bare (path : String) : bare (bare path) = bare path := by
  simp [bare, barePath_barePath]

/-- Puts a digest into a list of entries, in its place by the path. -/
def put (path digest : String) : List (String × String) → List (String × String)
  | [] => [(path, digest)]
  | (p, d) :: rest =>
    if path = p then (path, digest) :: rest
    else if path < p then (path, digest) :: (p, d) :: rest
    else (p, d) :: put path digest rest

theorem mem_put {path digest : String} {entries : List (String × String)} {e : String × String}
    (h : e ∈ put path digest entries) : e = (path, digest) ∨ e ∈ entries := by
  induction entries with
  | nil => simpa [put] using h
  | cons head rest ih =>
    obtain ⟨p, d⟩ := head
    rw [put] at h
    split at h
    · rcases List.mem_cons.mp h with h | h
      · exact .inl h
      · exact .inr (List.mem_cons_of_mem _ h)
    · split at h
      · rcases List.mem_cons.mp h with h | h
        · exact .inl h
        · exact .inr h
      · rcases List.mem_cons.mp h with h | h
        · exact .inr (h ▸ List.mem_cons_self)
        · rcases ih h with h | h
          · exact .inl h
          · exact .inr (List.mem_cons_of_mem _ h)

theorem put_sorted {path digest : String} {entries : List (String × String)}
    (h : entries.Pairwise (·.1 < ·.1)) : (put path digest entries).Pairwise (·.1 < ·.1) := by
  induction entries with
  | nil => simp [put]
  | cons head rest ih =>
    obtain ⟨p, d⟩ := head
    obtain ⟨first, others⟩ := List.pairwise_cons.mp h
    rw [put]
    split
    · rename_i same
      subst same
      exact List.pairwise_cons.mpr ⟨first, others⟩
    · split
      · rename_i before
        refine List.pairwise_cons.mpr ⟨fun e he => ?_, h⟩
        rcases List.mem_cons.mp he with he | he
        · exact he ▸ before
        · exact String.lt_trans before (first e he)
      · rename_i different notBefore
        refine List.pairwise_cons.mpr ⟨fun e he => ?_, ih others⟩
        rcases mem_put he with he | he
        · subst he
          -- Neither equal nor smaller: the new path comes behind `p`.
          rcases String.le_total path p with le | le
          · exact absurd (Std.lt_of_le_of_ne le different) notBefore
          · exact Std.lt_of_le_of_ne le (Ne.symm different)
        · exact first e he

end Digests

/-- The files of a blob with the digests of their contents. -/
structure Digests where
  entries : List (String × String)
  sorted : entries.Pairwise (·.1 < ·.1)
  bare_keys : ∀ e ∈ entries, Digests.bare e.1 = e.1

namespace Digests

/-- No files. -/
def empty : Digests where
  entries := []
  sorted := List.Pairwise.nil
  bare_keys := by simp

instance : Inhabited Digests := ⟨empty⟩

instance : DecidableEq Digests := fun a b =>
  if h : a.entries = b.entries then
    .isTrue (by cases a; cases b; simp_all)
  else .isFalse fun same => h (same ▸ rfl)

/-- Records the digest of a file; an earlier one for the same path is replaced. -/
def insert (d : Digests) (path digest : String) : Digests where
  entries := put (bare path) digest d.entries
  sorted := put_sorted d.sorted
  bare_keys := by
    intro e he
    rcases mem_put he with rfl | he
    · exact bare_bare path
    · exact d.bare_keys e he

/-- The digest recorded for a path. -/
def get? (d : Digests) (path : String) : Option String :=
  (d.entries.find? (·.1 = bare path)).map (·.2)

/-- The number of files. -/
def size (d : Digests) : Nat :=
  d.entries.length

/-- No file is recorded. -/
def isEmpty (d : Digests) : Bool :=
  d.entries.isEmpty

/-- The files of a list in order, a later entry replacing an earlier one. -/
def ofList (entries : List (String × String)) : Digests :=
  entries.foldl (fun d (path, digest) => d.insert path digest) empty

/-- Both records hold the same files with the same digests. -/
def agrees (a b : Digests) : Bool :=
  a = b

/-- The paths whose digests differ, or that one record lacks, in ascending order. -/
def differences (a b : Digests) : List String :=
  let changed := (a.entries.filter fun e => b.get? e.1 ≠ some e.2).map (·.1)
  let added := (b.entries.filter fun e => (a.get? e.1).isNone).map (·.1)
  (changed ++ added).mergeSort (· ≤ ·)

end Digests

end DeploymentBackup
