import DeploymentBackup.Proofs.Disk.Tree

namespace DeploymentBackup.Disk

open Text

/-!
# A file that is replaced

Inside a directory that is not left, a way leads over directories and links to a file at its end.
A file cannot be passed, so when one is replaced or removed, or a link that leads to it, only the
ways to this file change, and they lead to what has taken its place.

* `Replaces` — what stands at a path is replaced or removed, with everything below it.
* `replaces_remove`, `Stores.replaces` — removing and writing.
* `Within` — a directory below a base, with all directories between.
* `walk_file_unique` — a way that goes on behind a file leads nowhere.
* `walk_replaces` — a way on the changed disk.
* `resolveIn_replaced`, `resolveIn_replaces` — the name of the file, and any other name.
-/

/-- Something else, or nothing, is at a path, and what was below it does not matter. -/
structure Replaces (d d' : Disk) (path : Path) (found : Option Entry) : Prop where
  here : d'.get? path = found
  elsewhere : ∀ other, ¬ path <+: other → d'.get? other = d.get? other

/-- A directory that is below another one, and so are all between them. -/
structure Within (d : Disk) (base current : Path) : Prop where
  below : base <+: current
  directories : ∀ between, base <+: between → between <+: current →
    ∃ serial, d.get? between = some (.directory serial)

variable {d d' : Disk} {base current path : Path}

/-- What is removed is not there any more. -/
theorem replaces_remove (hne : path ≠ []) : Replaces d (d.remove path) path none where
  here := by
    unfold get? remove entryOf
    rw [if_neg hne, Option.map_eq_none_iff, List.find?_eq_none]
    intro e he hsame
    have hkept := (List.mem_filter.mp he).2
    have hbelow : path <+: e.1 := of_decide_eq_true hsame ▸ List.prefix_rfl
    rw [List.isPrefixOf_iff_prefix.mpr hbelow] at hkept
    cases hkept
  elsewhere := by
    intro other hother
    unfold get? remove entryOf
    -- None of the entries that are left out is the one that is looked for.
    have hkept : (fun e : Path × Entry => decide ((!path.isPrefixOf e.1) = true ∧
        decide (e.1 = other) = true)) = fun e => decide (e.1 = other) := by
      funext e
      by_cases hsame : e.1 = other
      · have hfar : path.isPrefixOf e.1 = false := by
          rw [Bool.eq_false_iff, Ne, List.isPrefixOf_iff_prefix, hsame]
          exact hother
        simp [hsame ▸ hfar, hsame]
      · simp [hsame]
    rw [List.find?_filter, hkept]

/-- What is written takes the place of what was there. -/
theorem Stores.replaces {contents : Bytes} (h : Stores d d' path contents) :
    ∃ executable, Replaces d d' path (some (.file contents executable)) := by
  obtain ⟨executable, hhere⟩ := h.here
  exact ⟨executable, hhere, fun other hother =>
    h.elsewhere other fun hc => hother (hc ▸ List.prefix_rfl)⟩

/-! ### Directories below a base -/

theorem Within.here (h : Within d base current) :
    ∃ serial, d.get? current = some (.directory serial) :=
  h.directories current h.below List.prefix_rfl

theorem within_base {serial : Nat} (h : d.get? base = some (.directory serial)) :
    Within d base base where
  below := List.prefix_rfl
  directories := by
    intro between hbelow habove
    rw [habove.eq_of_length_le hbelow.length_le]
    exact ⟨serial, h⟩

theorem Within.down (h : Within d base current) {step : String} {serial : Nat}
    (hthere : d.get? (current ++ [step]) = some (.directory serial)) :
    Within d base (current ++ [step]) where
  below := h.below.trans (List.prefix_append _ _)
  directories := by
    intro between hbelow habove
    rcases List.prefix_concat_iff.mp habove with rfl | hbefore
    · exact ⟨serial, hthere⟩
    · exact h.directories between hbelow hbefore

theorem Within.up (h : Within d base current) (hne : base ≠ current) :
    Within d base current.dropLast where
  below := by
    obtain ⟨more, rfl⟩ := h.below
    have hmore : more ≠ [] := by
      rintro rfl
      exact hne (List.append_nil base).symm
    rw [List.dropLast_append_of_ne_nil hmore]
    exact List.prefix_append _ _
  directories := fun between hbelow habove =>
    h.directories between hbelow (habove.trans (List.dropLast_prefix current))

/-! ### Files at the end of a way -/

theorem walk_exhausted {step target : String} {rest : List String} {place : Place}
    (hhere : step ≠ ".") (habove : step ≠ "..")
    (hthere : d.get? (current ++ [step]) = some (.link target)) :
    d.walk (some base) true 0 current (step :: rest) ≠ .ok place := by
  rw [walk, if_neg hhere, if_neg habove]
  split
  · exact fun hc => by cases hc
  · simp only [hthere, Bool.not_true, Bool.and_false, Bool.false_eq_true, if_false]
    exact fun hc => by cases hc

/-- A file at the end of a way is below the base. -/
theorem walk_file_below (hin : Within d base current) {links : Nat} {steps : List String}
    {contents : Bytes} {executable : Bool}
    (hfile : d.walk (some base) true links current steps =
      .ok (.entry path (.file contents executable))) : base <+: path := by
  fun_induction d.walk (some base) true links current steps with
  | case1 links current entry hentry =>
    obtain ⟨rfl, -⟩ := Place.entry.inj (Except.ok.inj hfile)
    exact hin.below
  | case3 links current more ih => exact ih hin hfile
  | case5 links current more hbase hhere ih =>
    exact ih (hin.up fun hc => hbase (congrArg some hc)) hfile
  | case9 links current step more hhere habove hfits path' serial hentry ih =>
    exact ih (hin.down hentry) hfile
  | case10 links current step more hhere habove hfits path' old executable' hentry hlast =>
    obtain ⟨rfl, -⟩ := Place.entry.inj (Except.ok.inj hfile)
    exact hin.below.trans (List.prefix_append _ _)
  | case16 current step more hhere habove hfits path' target hentry hfollow links text habs =>
    rename_i ih
    exact ih hin hfile
  -- All other ways lead nowhere, or to no file.
  | _ => simp_all

/-- A way that goes on behind a file leads nowhere, and no other number of links leads elsewhere. -/
theorem walk_file_unique (hin : Within d base current) {links links' : Nat}
    {steps rest : List String} {contents : Bytes} {executable : Bool} {place : Place}
    (hfile : d.walk (some base) true links current steps =
      .ok (.entry path (.file contents executable)))
    (hmore : d.walk (some base) true links' current (steps ++ rest) = .ok place) :
    rest = [] ∧ place = .entry path (.file contents executable) := by
  fun_induction d.walk (some base) true links current steps generalizing links' with
  | case1 links current entry hentry =>
    obtain ⟨serial, hdirectory⟩ := hin.here
    cases hfile
    rw [hentry] at hdirectory
    cases hdirectory
  | case3 links current more ih =>
    rw [List.cons_append, walk_here] at hmore
    exact ih hin hfile hmore
  | case5 links current more hbase hhere ih =>
    rw [List.cons_append, walk_above hbase] at hmore
    exact ih (hin.up fun hc => hbase (congrArg some hc)) hfile hmore
  | case9 links current step more hhere habove hfits path' serial hentry ih =>
    rw [List.cons_append, walk_directory hhere habove hfits hentry] at hmore
    exact ih (hin.down hentry) hfile hmore
  | case10 links current step more hhere habove hfits path' old executable' hentry hlast =>
    rw [List.isEmpty_iff.mp hlast, List.singleton_append, walk_file hhere habove hfits hentry]
      at hmore
    split at hmore
    · rename_i hnone
      rw [← Except.ok.inj hmore, ← Except.ok.inj hfile]
      exact ⟨List.isEmpty_iff.mp hnone, rfl⟩
    · cases hmore
  | case16 current step more hhere habove hfits path' target hentry hfollow links text habs =>
    rename_i ih
    cases links' with
    | zero => exact absurd hmore (walk_exhausted hhere habove hentry)
    | succ links' =>
      rw [List.cons_append, walk_relative hhere habove hfits hentry (by simp) habs,
        ← List.append_assoc] at hmore
      exact ih hin hfile hmore
  -- All other ways lead nowhere, or to no file.
  | _ => simp_all

/-! ### Ways on the changed disk -/

/-- An entry of a directory below the base is what it was, unless it is the one that is replaced. -/
theorem Replaces.get?_entry {found : Option Entry} (h : Replaces d d' path found)
    (hbelow : base <+: path) (hnot : ∀ serial, d.get? path ≠ some (.directory serial))
    (hin : Within d base current) {step : String} (hne : current ++ [step] ≠ path) :
    d'.get? (current ++ [step]) = d.get? (current ++ [step]) := by
  refine h.elsewhere _ fun hprefix => ?_
  rcases List.prefix_concat_iff.mp hprefix with hsame | hbefore
  · exact hne hsame.symm
  · obtain ⟨serial, hdirectory⟩ := hin.directories path hbelow hbefore
    exact hnot serial hdirectory

theorem Replaces.get?_current {found : Option Entry} (h : Replaces d d' path found)
    (hbelow : base <+: path) (hnot : ∀ serial, d.get? path ≠ some (.directory serial))
    (hin : Within d base current) : d'.get? current = d.get? current := by
  refine h.elsewhere _ fun hprefix => ?_
  obtain ⟨serial, hdirectory⟩ := hin.directories path hbelow hprefix
  exact hnot serial hdirectory

/-- A way is what it was, or it comes to what was replaced. -/
theorem walk_replaces {found : Option Entry} (h : Replaces d d' path found)
    (hbelow : base <+: path) (hnot : ∀ serial, d.get? path ≠ some (.directory serial))
    (hin : Within d base current) {links : Nat} {steps : List String} {place : Place}
    (hwalk : d.walk (some base) true links current steps = .ok place) :
    d'.walk (some base) true links current steps = .ok place ∨
      ∃ links' parent step rest, parent ++ [step] = path ∧ Within d base parent ∧
        step ≠ "." ∧ step ≠ ".." ∧ ¬ longestName < step.utf8ByteSize ∧
        d.walk (some base) true links' parent (step :: rest) = .ok place ∧
        d'.walk (some base) true links current steps =
          d'.walk (some base) true links' parent (step :: rest) := by
  fun_induction d.walk (some base) true links current steps with
  | case1 links current entry hentry =>
    left
    rw [walk, h.get?_current hbelow hnot hin, hentry]
    exact hwalk
  | case3 links current more ih =>
    rw [walk_here]
    exact ih hin hwalk
  | case5 links current more hbase hhere ih =>
    rw [walk_above hbase]
    exact ih (hin.up fun hc => hbase (congrArg some hc)) hwalk
  -- From here on the entry of a step is looked up, which may be the one that was replaced.
  | case7 links current step more hhere habove hfits path' hentry hlast =>
    by_cases hsame : current ++ [step] = path
    · exact .inr ⟨links, current, step, more, hsame, hin, hhere, habove, hfits,
        by rw [walk_free hhere habove hfits hentry, if_pos hlast, ← hwalk], rfl⟩
    · left
      have hentry' := (h.get?_entry hbelow hnot hin hsame).trans hentry
      rw [walk_free hhere habove hfits hentry', if_pos hlast, ← hwalk]
  | case9 links current step more hhere habove hfits path' serial hentry ih =>
    have hsame : current ++ [step] ≠ path := fun hc => hnot serial (hc ▸ hentry)
    have hentry' := (h.get?_entry hbelow hnot hin hsame).trans hentry
    rw [walk_directory hhere habove hfits hentry']
    exact ih (hin.down hentry) hwalk
  | case10 links current step more hhere habove hfits path' old executable' hentry hlast =>
    by_cases hsame : current ++ [step] = path
    · exact .inr ⟨links, current, step, more, hsame, hin, hhere, habove, hfits,
        by rw [walk_file hhere habove hfits hentry, if_pos hlast, ← hwalk], rfl⟩
    · left
      have hentry' := (h.get?_entry hbelow hnot hin hsame).trans hentry
      rw [walk_file hhere habove hfits hentry', if_pos hlast, ← hwalk]
  | case16 current step more hhere habove hfits path' target hentry hfollow links text habs =>
    rename_i ih
    by_cases hsame : current ++ [step] = path
    · exact .inr ⟨links + 1, current, step, more, hsame, hin, hhere, habove, hfits,
        by rw [walk_relative hhere habove hfits hentry (by simp) habs, ← hwalk], rfl⟩
    · have hentry' := (h.get?_entry hbelow hnot hin hsame).trans hentry
      rw [walk_relative hhere habove hfits hentry' (by simp) habs]
      exact ih hin hwalk
  -- All other ways lead nowhere.
  | _ => simp_all

/-! ### Names inside a directory -/

theorem walk_fits {links : Nat} {step : String} {rest : List String} {place : Place}
    (hhere : step ≠ ".") (habove : step ≠ "..")
    (hwalk : d.walk (some base) true links current (step :: rest) = .ok place) :
    ¬ longestName < step.utf8ByteSize := by
  intro hlong
  rw [walk, if_neg hhere, if_neg habove, if_pos hlong] at hwalk
  cases hwalk

/-- A step that leads somewhere ends in a file or in a free place, or goes on in a directory or from
    where a link stands. -/
theorem walk_step {links : Nat} {step : String} {rest : List String} {place : Place}
    (hhere : step ≠ ".") (habove : step ≠ "..")
    (hwalk : d.walk (some base) true links current (step :: rest) = .ok place) :
    match d.get? (current ++ [step]) with
    | none => rest = [] ∧ place = .free (current ++ [step])
    | some (.directory _) => d.walk (some base) true links (current ++ [step]) rest = .ok place
    | some (.file contents executable) =>
      rest = [] ∧ place = .entry (current ++ [step]) (.file contents executable)
    | some (.link target) => ∃ links',
      d.walk (some base) true links' current ((PathText.of target).steps ++ rest) = .ok place := by
  have hfits := walk_fits hhere habove hwalk
  rcases hentry : d.get? (current ++ [step]) with _ | serial | ⟨contents, executable⟩ | target
  · rw [walk_free hhere habove hfits hentry] at hwalk
    split at hwalk
    · rename_i hlast
      exact ⟨List.isEmpty_iff.mp hlast, (Except.ok.inj hwalk).symm⟩
    · cases hwalk
  · rwa [walk_directory hhere habove hfits hentry] at hwalk
  · rw [walk_file hhere habove hfits hentry] at hwalk
    split at hwalk
    · rename_i hlast
      exact ⟨List.isEmpty_iff.mp hlast, (Except.ok.inj hwalk).symm⟩
    · cases hwalk
  · -- A link takes one of the links that are left to follow.
    cases links with
    | zero => exact absurd hwalk (walk_exhausted hhere habove hentry)
    | succ links =>
      by_cases habs : (PathText.of target).absolute = true
      · -- A link that starts at the root leads out of the base.
        rw [walk, if_neg hhere, if_neg habove, if_neg hfits] at hwalk
        simp [hentry, habs] at hwalk
      · rw [walk_relative hhere habove hfits hentry (by simp) habs] at hwalk
        exact ⟨links, hwalk⟩

/-- Where a way leads that ends at a path. -/
def placeAt (path : Path) : Option Entry → Place
  | some found => .entry path found
  | none => .free path

/-- A file, or nothing. -/
def NoMoreThanFile (found : Option Entry) : Prop :=
  ∀ entry, found = some entry → ∃ contents executable, entry = .file contents executable

theorem walk_placeAt {found : Option Entry} (hfound : NoMoreThanFile found) {links : Nat}
    {parent : Path} {step : String} (hhere : step ≠ ".") (habove : step ≠ "..")
    (hfits : ¬ longestName < step.utf8ByteSize) (hthere : d.get? (parent ++ [step]) = found) :
    d.walk (some base) true links parent [step] = .ok (placeAt (parent ++ [step]) found) := by
  cases found with
  | none =>
    rw [walk_free hhere habove hfits hthere]
    rfl
  | some entry =>
    obtain ⟨contents, executable, rfl⟩ := hfound entry rfl
    rw [walk_file hhere habove hfits hthere]
    rfl

section Names

variable {h : Handle} {name : String} {file : Path} {contents : Bytes} {executable : Bool}
  {found : Option Entry}

theorem within_of_isOpen (hopen : d.isOpen h = true) : Within d h.path h.path := by
  have hentry : d.get? h.path = some (.directory h.serial) := by simpa [isOpen] using hopen
  exact within_base hentry

/-- The path of the file to which a name leads, or of the entry with that name. When these are
    two, the entry is a link. -/
theorem entry_of_resolveIn (hplain : PlainName name)
    (hfile : d.resolveIn h name = .ok (.entry file (.file contents executable)))
    (hpath : path = file ∨ path = h.entry name) :
    path = file ∧ d.get? path = some (.file contents executable) ∨
      path = h.entry name ∧ ∃ target links, d.get? path = some (.link target) ∧
        d.walk (some h.path) true links h.path (PathText.of target).steps =
          .ok (.entry file (.file contents executable)) := by
  have hright : d.get? file = some (.file contents executable) := resolveIn_right hfile
  obtain ⟨-, -, -, -, hopen, hwalk⟩ := resolveIn_ok_iff.mp hfile
  rw [hplain.steps] at hwalk
  -- The entry with the name decides where the way goes.
  have hstep := walk_step hplain.ne_here hplain.ne_above hwalk
  rcases hpath with rfl | rfl
  · exact .inl ⟨rfl, hright⟩
  · rcases hentry : d.get? (h.path ++ [name]) with _ | serial | ⟨old, executable'⟩ | target
    · rw [hentry] at hstep
      cases hstep.2
    · -- A directory is not the file.
      rw [hentry] at hstep
      simp only at hstep
      rw [walk, hentry] at hstep
      cases hstep
    · rw [hentry] at hstep
      obtain ⟨rfl, hsame⟩ := Place.entry.inj hstep.2
      exact .inl ⟨rfl, hright⟩
    · rw [hentry] at hstep
      obtain ⟨links, hwalk'⟩ := hstep
      rw [List.append_nil] at hwalk'
      exact .inr ⟨rfl, target, links, hentry, hwalk'⟩

/-- The path is below the directory, and it is no directory itself. -/
theorem below_of_resolveIn (hplain : PlainName name)
    (hfile : d.resolveIn h name = .ok (.entry file (.file contents executable)))
    (hpath : path = file ∨ path = h.entry name) :
    h.path <+: path ∧ ∀ serial, d.get? path ≠ some (.directory serial) := by
  obtain ⟨-, -, -, -, hopen, hwalk⟩ := resolveIn_ok_iff.mp hfile
  rcases entry_of_resolveIn hplain hfile hpath with
    ⟨rfl, hentry⟩ | ⟨rfl, target, links, hentry, -⟩
  · refine ⟨walk_file_below (within_of_isOpen hopen) hwalk, fun serial hc => ?_⟩
    rw [hentry] at hc
    cases hc
  · refine ⟨List.prefix_append _ _, fun serial hc => ?_⟩
    rw [hentry] at hc
    cases hc

theorem Replaces.isOpen (hreplaces : Replaces d d' path found) (hopen : d.isOpen h = true)
    (hbelow : h.path <+: path) (hnot : ∀ serial, d.get? path ≠ some (.directory serial)) :
    d'.isOpen h = true := by
  unfold Disk.isOpen at hopen ⊢
  rw [hreplaces.get?_current hbelow hnot (within_of_isOpen hopen)]
  exact hopen

/-- A name leads to the same file as before, or it led to this one, and leads to what has
    taken its place. -/
theorem resolveIn_replaces (hplain : PlainName name)
    (hfile : d.resolveIn h name = .ok (.entry file (.file contents executable)))
    (hpath : path = file ∨ path = h.entry name) (hfound : NoMoreThanFile found)
    (hreplaces : Replaces d d' path found) {other : String} {old : Bytes} {executable' : Bool}
    {place : Path} (hother : d.resolveIn h other = .ok (.entry place (.file old executable'))) :
    d'.resolveIn h other = d.resolveIn h other ∨
      d.resolveIn h other = d.resolveIn h name ∧
        d'.resolveIn h other = .ok (placeAt path found) := by
  obtain ⟨hbelow, hnot⟩ := below_of_resolveIn hplain hfile hpath
  obtain ⟨hzero, hempty, hlong, habs, hopen, hwalk⟩ := resolveIn_ok_iff.mp hother
  have hopen' := hreplaces.isOpen hopen hbelow hnot
  rcases walk_replaces hreplaces hbelow hnot (within_of_isOpen hopen) hwalk with
    hsame | ⟨links, parent, step, rest, hparent, hin, hhere, habove, hfits, honto, hchanged⟩
  · left
    rw [hother, resolveIn_ok_iff]
    exact ⟨hzero, hempty, hlong, habs, hopen', hsame⟩
  · right
    have hstep := walk_step hhere habove honto
    rw [hparent] at hstep
    -- The way ends here: nothing leads on behind the file.
    have hends : rest = [] ∧ (.entry place (.file old executable') : Place) =
        .entry file (.file contents executable) := by
      rcases entry_of_resolveIn hplain hfile hpath with
        ⟨rfl, hentry⟩ | ⟨hpath', target, links', hentry, hwalk'⟩
      · rw [hentry] at hstep
        exact hstep
      · rw [hentry] at hstep
        obtain ⟨links'', hmore⟩ := hstep
        obtain ⟨rfl, -⟩ := List.append_inj' (hparent.trans hpath') rfl
        exact walk_file_unique hin hwalk' hmore
    obtain ⟨rfl, hplace⟩ := hends
    refine ⟨by rw [hother, hfile, hplace], ?_⟩
    rw [resolveIn_ok_iff]
    refine ⟨hzero, hempty, hlong, habs, hopen', ?_⟩
    subst hparent
    rw [hchanged]
    exact walk_placeAt hfound hhere habove hfits hreplaces.here

/-- The name of a file that was replaced leads to what has taken its place. -/
theorem resolveIn_replaced (hplain : PlainName name)
    (hfile : d.resolveIn h name = .ok (.entry file (.file contents executable)))
    (hpath : path = file ∨ path = h.entry name) (hfound : NoMoreThanFile found)
    (hreplaces : Replaces d d' path found) :
    d'.resolveIn h name = .ok (placeAt path found) := by
  obtain ⟨hzero, hempty, hlong, habs, hopen, hwalk⟩ := resolveIn_ok_iff.mp hfile
  rcases hpath with rfl | rfl
  · rcases resolveIn_replaces hplain hfile (.inl rfl) hfound hreplaces hfile with hsame | ⟨-, hnew⟩
    · -- The way is what it was, so what has taken the place of the file is the same.
      have hright : d'.get? path = some (.file contents executable) :=
        resolveIn_right (hsame.trans hfile)
      rw [hsame, hfile, ← hreplaces.here, hright]
      rfl
    · exact hnew
  · obtain ⟨hbelow, hnot⟩ := below_of_resolveIn hplain hfile (.inr rfl)
    rw [hplain.steps] at hwalk
    rw [resolveIn_ok_iff, hplain.steps]
    refine ⟨hzero, hempty, hlong, Bool.false_ne_true, hreplaces.isOpen hopen hbelow hnot, ?_⟩
    exact walk_placeAt hfound hplain.ne_here hplain.ne_above
      (walk_fits hplain.ne_here hplain.ne_above hwalk) hreplaces.here

end Names

end DeploymentBackup.Disk
