import DeploymentBackup.Proofs.Archive.Header
import DeploymentBackup.Proofs.Text.Lines

namespace DeploymentBackup.Archive

open Text

/-!
# The path under which a file is stored

A path is stored by its components when these fit the name field, and as it is given otherwise.
A path that fits no field is not looked at behind its first hundred bytes, so it may hold there
what is refused elsewhere.

* `names`, `joined` — the components of a path, and what they are joined to.
* `Admissible`, `Refused` — the paths that a file can have, and those with which nothing is
  written.
* `storedPath` — the path that is read back.
* `storedName?_eq` — the name in a header.
* `file?_short`, `file?_long`, `file?_refused` — what is written of a file.
-/

/-- The components of a path, without those that are empty or `.`. -/
def names (path : List Char) : List (List Char) :=
  (pieces '/' path).filter fun part => part ≠ [] ∧ part ≠ ['.']

/-- The components of a path, joined by slashes, or a `.` when there is no other one. -/
def joinedNames (path : List Char) : List Char :=
  ['/'].intercalate (if names path = [] then [['.']] else names path)

/-- The components of a path, joined by slashes, with a slash at the end where the path has one. -/
def joined (path : List Char) : List Char :=
  if path.getLast? = some '/' then joinedNames path ++ ['/'] else joinedNames path

/-- A relative path that holds no NUL and no parent component. -/
def Admissible (path : List Char) : Prop :=
  path ≠ [] ∧ path.head? ≠ some '/' ∧ '\x00' ∉ path ∧ ['.', '.'] ∉ pieces '/' path

instance (path : List Char) : Decidable (Admissible path) :=
  inferInstanceAs (Decidable (_ ∧ _))

/-- A path that is empty or absolute, or in which a NUL or a parent component is found. A path of
    a hundred bytes or more is searched in its first hundred bytes, the last component of which
    may go on. -/
def Refused (path : List Char) : Prop :=
  path = [] ∨ path.head? = some '/' ∨
    if (encodeChars path).length < 100 then '\x00' ∈ path ∨ ['.', '.'] ∈ names path
    else '\x00' ∈ fitting 100 path ∨ ['.', '.'] ∈ (names (fitting 100 path)).dropLast

instance (path : List Char) : Decidable (Refused path) :=
  inferInstanceAs (Decidable (_ ∨ _))

/-- The path under which a file is stored. -/
def storedPath (path : String) : String :=
  if Admissible path.toList ∧ (encodeChars (joined path.toList)).length ≤ 100 then
    String.ofList (joined path.toList)
  else path

/-! ### Components -/

section

variable {path : List Char}

/-- A relative path starts with a component. -/
theorem exists_first (hne : path ≠ []) (hhead : path.head? ≠ some '/') :
    ∃ first tail, pieces '/' path = first :: tail ∧ first ≠ [] := by
  cases path with
  | nil => exact absurd rfl hne
  | cons c rest =>
    have hc : c ≠ '/' := fun hc => hhead (by rw [hc]; rfl)
    obtain ⟨head, tail, hpieces⟩ := exists_pieces '/' rest
    exact ⟨c :: head, tail, pieces_cons hc hpieces, List.cons_ne_nil _ _⟩

/-- The first component alone may be a `.`. -/
theorem components_eq (hne : path ≠ []) (hhead : path.head? ≠ some '/') :
    components path = .here :: (names path).map Component.of ∨
      names path ≠ [] ∧ components path = (names path).map Component.of := by
  obtain ⟨first, tail, hpieces, hfirst⟩ := exists_first hne hhead
  unfold components names
  simp only [hpieces, List.take_succ_cons, List.take_zero, List.drop_succ_cons, List.drop_zero]
  by_cases hhere : first = ['.']
  · left
    simp [hhere, Component.of]
  · right
    simp [hhere, hfirst]

/-- The texts of all components but a leading `.`. -/
theorem filterMap_text? (alone : Bool) {parts : List (List Char)} (h : ['.'] ∉ parts) :
    (parts.map Component.of).filterMap (Component.text? alone) = parts := by
  induction parts with
  | nil => rfl
  | cons part rest ih =>
    rw [List.mem_cons, not_or] at h
    have htext : (Component.of part).text? alone = some part := by
      unfold Component.of
      rw [if_neg (Ne.symm h.1)]
      split
      · rename_i hparent
        rw [hparent]
        rfl
      · rfl
    rw [List.map_cons, List.filterMap_cons_some htext, ih h.2]

theorem here_notMem_names : ['.'] ∉ names path := by
  simp [names]

theorem parent_mem_map {parts : List (List Char)} :
    .parent ∈ parts.map Component.of ↔ ['.', '.'] ∈ parts := by
  rw [List.mem_map]
  constructor
  · rintro ⟨part, hpart, hof⟩
    unfold Component.of at hof
    split at hof
    · cases hof
    · split at hof
      · rename_i hparent
        exact hparent ▸ hpart
      · cases hof
  · intro hparent
    exact ⟨_, hparent, rfl⟩

theorem parent_mem_components (hne : path ≠ []) (hhead : path.head? ≠ some '/') :
    .parent ∈ components path ↔ ['.', '.'] ∈ names path := by
  rcases components_eq hne hhead with hparts | ⟨-, hparts⟩
  · rw [hparts, List.mem_cons, parent_mem_map]
    simp
  · rw [hparts, parent_mem_map]

theorem parent_mem_dropLast (hne : path ≠ []) (hhead : path.head? ≠ some '/') :
    .parent ∈ (components path).dropLast ↔ ['.', '.'] ∈ (names path).dropLast := by
  rcases components_eq hne hhead with hparts | ⟨-, hparts⟩
  · rw [hparts]
    by_cases hnames : names path = []
    · simp [hnames]
    · rw [List.dropLast_cons_of_ne_nil (by simpa using hnames), ← List.map_dropLast, List.mem_cons,
        parent_mem_map]
      simp
  · rw [hparts, ← List.map_dropLast, parent_mem_map]

theorem storedName?_none (shortened : Bool) (h : path = [] ∨ path.head? = some '/') :
    storedName? shortened path = none := by
  unfold storedName?
  rcases h with rfl | h
  · rfl
  · exact if_pos (.inl h)

/-- The name of a relative path in a header: its components, unless one of them is a parent. -/
theorem storedName?_eq (shortened : Bool) (hne : path ≠ []) (hhead : path.head? ≠ some '/') :
    storedName? shortened path =
      if ['.', '.'] ∈ (if shortened then (names path).dropLast else names path) ∨
          '\x00' ∈ path then none
      else some (joined path) := by
  have hhere : ['.'] ∉ names path := here_notMem_names
  have hsome : components path ≠ [] := by
    rcases components_eq hne hhead with hparts | ⟨hnames, hparts⟩
    · simp [hparts]
    · simpa [hparts] using hnames
  have hclimbs : (if shortened then (components path).dropLast.contains .parent
      else (components path).contains .parent) = true ↔
        ['.', '.'] ∈ (if shortened then (names path).dropLast else names path) := by
    cases shortened with
    | false => simp [parent_mem_components hne hhead]
    | true => simp [parent_mem_dropLast hne hhead]
  -- A dot at the front stands for itself only when it is all that is left.
  have htexts : (components path).filterMap
      (Component.text? ((components path).length = 1)) =
        if names path = [] then [['.']] else names path := by
    rcases components_eq hne hhead with hparts | ⟨hnames, hparts⟩
    · by_cases hnames : names path = []
      · rw [hparts, if_pos hnames, hnames]
        rfl
      · have hmore : ¬ (components path).length = 1 := by
          rw [hparts, List.length_cons, List.length_map]
          exact fun hc => hnames (List.length_eq_zero_iff.mp (by omega))
        rw [decide_eq_false hmore, hparts, if_neg hnames, List.filterMap_cons_none rfl,
          filterMap_text? _ hhere]
    · rw [hparts, if_neg hnames, filterMap_text? _ hhere]
  unfold storedName?
  simp only [hhead, hsome, hclimbs, htexts, false_or, List.contains_iff_mem]
  rfl

theorem storedName?_whole (hne : path ≠ []) (hhead : path.head? ≠ some '/') :
    storedName? false path =
      if ['.', '.'] ∈ names path ∨ '\x00' ∈ path then none else some (joined path) :=
  storedName?_eq false hne hhead

theorem storedName?_front (hne : path ≠ []) (hhead : path.head? ≠ some '/') :
    storedName? true path =
      if ['.', '.'] ∈ (names path).dropLast ∨ '\x00' ∈ path then none else some (joined path) :=
  storedName?_eq true hne hhead

/-! ### Lengths -/

theorem length_encodeChars_le {cs cs' : List Char} (h : cs.Sublist cs') :
    (encodeChars cs).length ≤ (encodeChars cs').length := by
  induction h with
  | slnil => exact Nat.le_refl _
  | cons c _ ih =>
    rw [encodeChars_cons, List.length_append]
    omega
  | cons_cons c _ ih =>
    rw [encodeChars_cons, encodeChars_cons, List.length_append, List.length_append]
    omega

/-- To leave parts out makes a joined text shorter. -/
theorem intercalate_sublist {parts parts' : List (List Char)} (h : parts.Sublist parts')
    (sep : List Char) : (sep.intercalate parts).Sublist (sep.intercalate parts') := by
  induction h with
  | slnil => exact .refl _
  | @cons parts parts' part h ih =>
    -- A part that is left out takes its separator along.
    cases parts' with
    | nil =>
      rw [List.sublist_nil.mp h]
      exact List.nil_sublist _
    | cons next rest =>
      rw [List.intercalate_cons_cons]
      exact ih.trans (List.sublist_append_right _ _)
  | @cons_cons parts parts' part h ih =>
    cases parts with
    | nil =>
      cases parts' with
      | nil => exact .refl _
      | cons next rest =>
        rw [List.intercalate_singleton, List.intercalate_cons_cons, List.append_assoc]
        exact List.sublist_append_left _ _
    | cons first more =>
      cases parts' with
      | nil => cases h
      | cons next rest =>
        rw [List.intercalate_cons_cons, List.intercalate_cons_cons]
        exact (List.Sublist.refl _).append ih

theorem joinedNames_sublist (hne : path ≠ []) (hhead : path.head? ≠ some '/') :
    (joinedNames path).Sublist path := by
  unfold joinedNames
  by_cases hnames : names path = []
  · -- Nothing but empty components and dots: the first one is a dot.
    obtain ⟨first, tail, hpieces, hfirst⟩ := exists_first hne hhead
    have hhere : first = ['.'] := by
      by_contra hother
      have hmem : first ∈ names path := by
        rw [names, hpieces]
        simp [hfirst, hother]
      rw [hnames] at hmem
      cases hmem
    have hsub : [['.']].Sublist (pieces '/' path) := by
      rw [hpieces, hhere]
      exact List.singleton_sublist.mpr List.mem_cons_self
    rw [if_pos hnames]
    have hjoin := intercalate_sublist hsub ['/']
    rwa [intercalate_pieces] at hjoin
  · rw [if_neg hnames]
    have hsub : (names path).Sublist (pieces '/' path) := List.filter_sublist
    have hjoin := intercalate_sublist hsub ['/']
    rwa [intercalate_pieces] at hjoin

theorem names_concat : names (path ++ ['/']) = names path := by
  rw [names, pieces_concat, List.filter_append]
  simp [names]

/-- A path is not shorter than what is stored of it. -/
theorem joined_sublist (hne : path ≠ []) (hhead : path.head? ≠ some '/') :
    (joined path).Sublist path := by
  unfold joined
  by_cases hlast : path.getLast? = some '/'
  · obtain ⟨front, rfl⟩ := List.getLast?_eq_some_iff.mp hlast
    have hfront : front ≠ [] := by
      rintro rfl
      exact hhead rfl
    have hhead' : front.head? ≠ some '/' := by
      obtain ⟨c, rest, rfl⟩ := List.exists_cons_of_ne_nil hfront
      exact hhead
    have hsame : joinedNames (front ++ ['/']) = joinedNames front := by
      rw [joinedNames, names_concat]
      rfl
    rw [if_pos hlast, hsame]
    exact (joinedNames_sublist hfront hhead').append (.refl _)
  · rw [if_neg hlast]
    exact joinedNames_sublist hne hhead

/-! ### The first hundred bytes -/

theorem fitting_isPrefix (limit : Nat) (path : List Char) : fitting limit path <+: path := by
  induction path generalizing limit with
  | nil => exact List.prefix_rfl
  | cons c rest ih =>
    rw [fitting]
    split
    · exact List.cons_prefix_cons.mpr ⟨rfl, ih _⟩
    · exact List.nil_prefix

theorem length_encode_fitting (limit : Nat) (path : List Char) :
    (encodeChars (fitting limit path)).length ≤ limit := by
  induction path generalizing limit with
  | nil => exact Nat.zero_le limit
  | cons c rest ih =>
    rw [fitting]
    split
    · have hrest := ih (limit - c.utf8Size)
      rw [encodeChars_cons, List.length_append, String.length_utf8EncodeChar]
      omega
    · exact Nat.zero_le limit

/-- Components in the front of a path, but for the last one, are components of the path. -/
theorem mem_names_of_front {front : List Char} {part : List Char} (h : front <+: path)
    (hpart : part ∈ (names front).dropLast) : part ∈ names path := by
  obtain ⟨back, rfl⟩ := h
  -- Only the last piece of the front may go on behind it.
  obtain ⟨init, last, more, tail, hfront, hall⟩ := pieces_front '/' front back
  unfold names at *
  rw [hall, List.filter_append]
  rw [hfront, List.filter_append] at hpart
  refine List.mem_append_left _ ?_
  by_cases hlast : last ≠ [] ∧ last ≠ ['.']
  · rwa [List.filter_cons_of_pos (by simpa using hlast), List.filter_nil,
      List.dropLast_concat] at hpart
  · rw [List.filter_cons_of_neg (by simpa using hlast), List.filter_nil, List.append_nil] at hpart
    exact List.dropLast_subset _ hpart

theorem fitting_cons (c : Char) (rest : List Char) :
    ∃ more, fitting 100 (c :: rest) = c :: more := by
  have hsize := c.utf8Size_le_four
  exact ⟨_, if_pos (by omega)⟩

/-! ### What is written of a file -/

theorem parent_mem_names : ['.', '.'] ∈ names path ↔ ['.', '.'] ∈ pieces '/' path := by
  simp [names]

/-- Nothing that is refused is found in the front of an admissible path. -/
theorem Admissible.not_refused (h : Admissible path) : ¬ Refused path := by
  obtain ⟨hne, hhead, hnul, hparent⟩ := h
  rw [← parent_mem_names] at hparent
  rintro (hc | hc | hc)
  · exact hne hc
  · exact hhead hc
  · split at hc
    · rcases hc with hc | hc
      · exact hnul hc
      · exact hparent hc
    · have hfront := fitting_isPrefix 100 path
      rcases hc with hc | hc
      · exact hnul (hfront.subset hc)
      · exact hparent (mem_names_of_front hfront hc)

theorem storedName?_of_admissible (h : Admissible path) :
    storedName? false path = some (joined path) := by
  obtain ⟨hne, hhead, hnul, hparent⟩ := h
  rw [← parent_mem_names] at hparent
  rw [storedName?_whole hne hhead, if_neg]
  rintro (hc | hc)
  · exact hparent hc
  · exact hnul hc

/-- A path that is refused has no name in a header, nor has its front where it is long. -/
theorem storedName?_of_refused (h : Refused path) : storedName? false path = none ∧
    (100 ≤ (encodeChars path).length → storedName? true (fitting 100 path) = none) := by
  cases path with
  | nil => exact ⟨rfl, fun _ => rfl⟩
  | cons c rest =>
    have hne : c :: rest ≠ [] := List.cons_ne_nil _ _
    obtain ⟨more, hfitting⟩ := fitting_cons c rest
    by_cases hhead : (c :: rest).head? = some '/'
    · exact ⟨storedName?_none _ (.inr hhead), fun _ => storedName?_none _ (.inr (hfitting ▸ hhead))⟩
    · rcases h with hc | hc | hc
      · exact absurd hc hne
      · exact absurd hc hhead
      · -- What is found in the front of a path is found in the path.
        have hprefix := fitting_isPrefix 100 (c :: rest)
        have hwhole : ['.', '.'] ∈ names (c :: rest) ∨ '\x00' ∈ c :: rest := by
          split at hc
          · exact hc.symm
          · exact hc.symm.imp (mem_names_of_front hprefix) fun hnul => hprefix.subset hnul
        refine ⟨?_, fun hlong => ?_⟩
        · rw [storedName?_whole hne hhead]
          exact if_pos hwhole
        · have hhead' : (c :: more).head? ≠ some '/' := hhead
          rw [if_neg (by omega), hfitting] at hc
          rw [hfitting, storedName?_front (List.cons_ne_nil _ _) hhead']
          exact if_pos hc.symm

end

section

variable {path : String} (contents : Bytes)

/-- A path whose components fit the name field is stored by them. -/
theorem file?_short (h : Admissible path.toList)
    (hshort : (encodeChars (joined path.toList)).length ≤ 100) :
    file? path contents = some
      (header (encodeChars (joined path.toList)) [] contents.length 0 ++ body contents) := by
  unfold file?
  simp only [storedName?_of_admissible h, Option.filter_some, hshort, decide_true, if_true]

/-- Nothing is written of a file whose path is refused. -/
theorem file?_refused (h : Refused path.toList) : file? path contents = none := by
  obtain ⟨hwhole, hfront⟩ := storedName?_of_refused h
  unfold file?
  simp only [hwhole, Option.filter_none]
  split
  · rfl
  · rename_i hlong
    rw [hfront (Nat.le_of_not_lt hlong)]
    rfl

/-- Any other path is stored as it is given, in a record before the header. -/
theorem file?_long (h : ¬ Refused path.toList) (hlong : ¬ (Admissible path.toList ∧
    (encodeChars (joined path.toList)).length ≤ 100)) :
    ∃ name, Named name [] ∧ file? path contents =
      some (longName (encode path) ++ header name [] contents.length 0 ++ body contents) := by
  have hne : path.toList ≠ [] := fun hc => h (.inl hc)
  have hhead : path.toList.head? ≠ some '/' := fun hc => h (.inr (.inl hc))
  have hsublist := length_encodeChars_le (joined_sublist hne hhead)
  have hadmissible (hclean : ¬ (['.', '.'] ∈ names path.toList ∨ '\x00' ∈ path.toList)) :
      Admissible path.toList := by
    rw [not_or, parent_mem_names] at hclean
    exact ⟨hne, hhead, hclean.2, hclean.1⟩
  have hshort : (storedName? false path.toList).filter
      (fun name => (encodeChars name).length ≤ 100) = none := by
    rw [storedName?_whole hne hhead]
    split
    · rfl
    · rename_i hclean
      rw [Option.filter_some, if_neg]
      exact fun hc => hlong ⟨hadmissible hclean, of_decide_eq_true hc⟩
  -- A path of less than a hundred bytes would be admissible, and its components would fit.
  have hlength : ¬ (encodeChars path.toList).length < 100 := by
    intro hc
    have hclean : ¬ (['.', '.'] ∈ names path.toList ∨ '\x00' ∈ path.toList) :=
      fun hbad => h (.inr (.inr (by rw [if_pos hc]; exact hbad.symm)))
    exact hlong ⟨hadmissible hclean, by omega⟩
  obtain ⟨c, rest, hpath⟩ := List.exists_cons_of_ne_nil hne
  obtain ⟨more, hfitting⟩ := fitting_cons c rest
  rw [← hpath] at hfitting
  have hne' : fitting 100 path.toList ≠ [] := by
    rw [hfitting]
    exact List.cons_ne_nil _ _
  have hhead' : (fitting 100 path.toList).head? ≠ some '/' := by
    rw [hpath] at hhead
    rw [hfitting]
    exact hhead
  have hname : storedName? true (fitting 100 path.toList) =
      some (joined (fitting 100 path.toList)) := by
    rw [storedName?_front hne' hhead', if_neg]
    exact fun hbad => h (.inr (.inr (by rw [if_neg hlength]; exact hbad.symm)))
  refine ⟨encodeChars (joined (fitting 100 path.toList)), ⟨?_, Nat.zero_le 16⟩, ?_⟩
  · exact Nat.le_trans (length_encodeChars_le (joined_sublist hne' hhead'))
      (length_encode_fitting 100 path.toList)
  · unfold file?
    simp only [encode, hshort, if_neg hlength, hname]
    rfl

theorem file?_isSome (h : ¬ Refused path.toList) : ∃ blocks, file? path contents = some blocks := by
  by_cases hshort : Admissible path.toList ∧ (encodeChars (joined path.toList)).length ≤ 100
  · exact ⟨_, file?_short contents hshort.1 hshort.2⟩
  · obtain ⟨name, -, hfile⟩ := file?_long contents h hshort
    exact ⟨_, hfile⟩

end

end DeploymentBackup.Archive
