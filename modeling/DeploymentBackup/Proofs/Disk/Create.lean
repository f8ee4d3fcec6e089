import DeploymentBackup.Proofs.Disk.Tree

namespace DeploymentBackup.Disk

open Text

/-!
# New directories

A path that has led nowhere and is made to lead to a directory leads to a new one, in which
there is nothing, unless it goes up behind a step that goes down: then the directory that is
missing on its way is made, and behind it the path may lead to anything.

* `Rooted`, `Bare`, `Vacant` — what there is at a place and below it.
* `AddsDirectories` — what can become of a disk when directories are made.
* `GoesDown` — the steps that lead to new directories.
* `of_join` — the steps of a path are read as they were written.
* `walk_concat`, `walk_made` — one step more, and one directory more.
* `makeDirectories_bare` — the directory is new.
-/

/-- Nothing stands below a place that is free. -/
def Rooted (d : Disk) : Prop :=
  ∀ path name, d.get? path = none → d.get? (path ++ [name]) = none

/-- There is nothing below a place. -/
def Bare (d : Disk) (path : Path) : Prop :=
  ∀ name rest, d.get? (path ++ name :: rest) = none

/-- There is nothing at a place, and nothing below it. -/
def Vacant (d : Disk) (path : Path) : Prop :=
  ∀ rest, d.get? (path ++ rest) = none

/-- Directories were made, and nothing else has changed. -/
def AddsDirectories (d d' : Disk) : Prop :=
  ∀ path, d'.get? path = d.get? path ∨ ∃ serial, d'.get? path = some (.directory serial)

/-- No step goes up once a step has gone down. -/
def GoesDown (steps : List String) : Prop :=
  ".." ∉ steps.dropWhile fun step => step = "." || step = ".."

instance (steps : List String) : Decidable (GoesDown steps) :=
  inferInstanceAs (Decidable (¬ _))

theorem rooted_fresh : Rooted fresh := by
  intro path name hfree
  have hpath : path ≠ [] := by
    rintro rfl
    cases hfree
  have hentry : ["work"] ≠ path ++ [name] := by
    intro hc
    cases path with
    | nil => exact hpath rfl
    | cons step rest => simp at hc
  simp [get?, fresh, entryOf, hentry]

/-! ### Written paths -/

/-- A step as paths are written with. -/
structure IsStep (step : String) : Prop where
  ne_empty : step ≠ ""
  no_slash : '/' ∉ step.toList

/-- The steps of a path are read as they were written. -/
theorem of_join {root : String} {names : List String} (hroot : root = "" ∨ root = "/")
    (hne : names ≠ []) (h : ∀ name ∈ names, IsStep name) :
    PathText.of (root ++ "/".intercalate names) = ⟨root = "/", names⟩ := by
  have hparts : ∀ part ∈ names.map String.toList, part ≠ [] ∧ '/' ∉ part := by
    intro part hpart
    obtain ⟨name, hname, rfl⟩ := List.mem_map.mp hpart
    exact ⟨fun hc => (h name hname).ne_empty (String.toList_eq_nil_iff.mp hc),
      (h name hname).no_slash⟩
  let joined := ['/'].intercalate (names.map String.toList)
  have hpieces : pieces '/' joined = names.map String.toList :=
    pieces_intercalate (by simpa using hne) fun part hpart => (hparts part hpart).2
  have hkept : ((names.map String.toList).filter (· ≠ [])).map String.ofList = names := by
    rw [List.filter_eq_self.mpr fun part hpart => by simpa using (hparts part hpart).1,
      List.map_map]
    exact List.map_id'' (fun _ => String.ofList_toList) names
  have hlast : joined.getLast? ≠ some '/' := getLast?_intercalate hparts
  -- No piece is empty, so the text neither starts nor ends with a slash.
  have hnil : [] ∉ pieces '/' joined := by
    rw [hpieces]
    exact fun hc => (hparts [] hc).1 rfl
  have hfirst : joined.head? ≠ some '/' := by
    intro hc
    obtain ⟨rest, hrest⟩ := List.head?_eq_some_iff.mp hc
    exact hnil (by simp [hrest, pieces])
  have htext : ("/".intercalate names).toList = joined := String.toList_intercalate
  unfold PathText.of
  rcases hroot with rfl | rfl
  · simp only [String.empty_append, htext, hpieces, hkept, hfirst, hlast]
    rfl
  · have hslash : ("/" ++ "/".intercalate names).toList = '/' :: joined := by
      rw [String.toList_append, htext]
      rfl
    have hparted : pieces '/' ('/' :: joined) = [] :: names.map String.toList := by
      rw [← hpieces]
      simp [pieces]
    have hend : ('/' :: joined).getLast? ≠ some '/' := by
      obtain ⟨c, rest, hjoined⟩ : ∃ c rest, joined = c :: rest :=
        List.exists_cons_of_ne_nil fun hc => hnil (by simp [hc, pieces])
      rwa [hjoined, List.getLast?_cons_cons, ← hjoined]
    simp only [hslash, hparted, hend]
    rw [List.filter_cons_of_neg (by simp), hkept]
    rfl

theorem isStep_of_mem {path step : String} (h : step ∈ (PathText.of path).steps) :
    IsStep step := by
  have hnames : ∀ name ∈ ((pieces '/' path.toList).filter (· ≠ [])).map String.ofList,
      IsStep name := by
    intro name hname
    obtain ⟨piece, hpiece, rfl⟩ := List.mem_map.mp hname
    obtain ⟨hmem, hne⟩ := List.mem_filter.mp hpiece
    refine ⟨fun hc => ?_, ?_⟩
    · have hempty : piece = [] := by simpa using congrArg String.toList hc
      simp [hempty] at hne
    · rw [String.toList_ofList]
      exact not_mem_pieces _ piece hmem
  unfold PathText.of at h
  simp only at h
  split at h
  · rcases List.mem_append.mp h with h | h
    · exact hnames step h
    · rw [List.mem_singleton.mp h]
      exact ⟨by decide, by decide⟩
  · exact hnames step h

/-! ### Walks -/

variable {d d' : Disk} {base : Option Path} {follow : Bool} {links : Nat} {current path : Path}
  {steps : List String} {serial : Nat}

theorem Rooted.bare (h : d.Rooted) (hfree : d.get? path = none) : d.Bare path := by
  intro name rest
  induction rest generalizing path name with
  | nil => exact h path name hfree
  | cons name' rest ih =>
    have hbelow := ih (h path name hfree) name'
    rwa [List.append_assoc, List.singleton_append] at hbelow

/-- In a directory without the entry, one step more leads to its free place. -/
theorem walk_concat {step : String} (hhere : step ≠ ".") (habove : step ≠ "..")
    (hwalk : d.walk base true links current steps = .ok (.entry path (.directory serial)))
    (hfree : d.get? (path ++ [step]) = none) :
    d.walk base follow links current (steps ++ [step]) =
      if longestName < step.utf8ByteSize then .error .nameTooLong
      else .ok (.free (path ++ [step])) := by
  -- The walk goes on where it ended before, in the directory at its end.
  fun_induction d.walk base true links current steps with
  | case1 links current entry hentry =>
    cases hwalk
    rw [List.nil_append, walk, if_neg hhere, if_neg habove]
    simp only [hfree, List.isEmpty_nil, if_true]
  | case3 links current rest ih =>
    rw [List.cons_append, walk_here]
    exact ih hwalk
  | case5 links current rest hbase hhere' ih =>
    rw [List.cons_append, walk_above hbase]
    exact ih hwalk
  | case9 links current step' rest hhere' habove' hfits path' serial' hentry ih =>
    rw [List.cons_append, walk_directory hhere' habove' hfits hentry]
    exact ih hwalk
  | case15 current step' rest hhere' habove' hfits path' target hentry hfollow links text habs
      hbase =>
    rename_i ih
    rw [List.cons_append, walk_absolute hhere' habove' hfits hentry (by simp) habs hbase,
      ← List.append_assoc]
    exact ih hwalk
  | case16 current step' rest hhere' habove' hfits path' target hentry hfollow links text habs ih =>
    rw [List.cons_append, walk_relative hhere' habove' hfits hentry (by simp) habs,
      ← List.append_assoc]
    exact ih hwalk
  | _ => simp at hwalk

/-- A walk to a free place leads to the directory that is made there. -/
theorem walk_made (htree : SameTree d d') (hmade : d'.get? path = some (.directory serial))
    (hwalk : d.walk base follow links current steps = .ok (.free path)) :
    d'.walk base true links current steps = .ok (.entry path (.directory serial)) := by
  -- The walk takes the same way on both disks, up to the place that is not free any more.
  fun_induction d.walk base follow links current steps with
  | case3 links current rest ih =>
    rw [walk_here]
    exact ih hwalk
  | case5 links current rest hbase hhere ih =>
    rw [walk_above hbase]
    exact ih hwalk
  | case7 links current step rest hhere habove hfits path' hentry hlast =>
    obtain rfl : current ++ [step] = path := by simpa [path'] using hwalk
    obtain rfl := List.isEmpty_iff.mp hlast
    rw [walk_directory hhere habove hfits hmade, walk, hmade]
  | case9 links current step rest hhere habove hfits path' serial' hentry ih =>
    rw [walk_directory hhere habove hfits (htree.directory _ _ hentry)]
    exact ih hwalk
  | case15 current step rest hhere habove hfits path' target hentry hfollow links text habs hbase =>
    rename_i ih
    rw [walk_absolute hhere habove hfits (htree.link _ _ hentry) (by simp) habs hbase]
    exact ih hwalk
  | case16 current step rest hhere habove hfits path' target hentry hfollow links text habs ih =>
    rw [walk_relative hhere habove hfits (htree.link _ _ hentry) (by simp) habs]
    exact ih hwalk
  | _ => simp at hwalk

/-- To go up leads to no free place. -/
theorem walk_replicate_ne_free (n : Nat) :
    d.walk base follow links current (List.replicate n "..") ≠ .ok (.free path) := by
  induction n generalizing current with
  | zero =>
    rw [List.replicate_zero, walk]
    cases d.get? current <;> simp
  | succ n ih =>
    rw [List.replicate_succ, walk, if_neg (by decide), if_pos rfl]
    split
    · simp
    · exact ih

/-- Some of the steps that go nowhere are left out. -/
inductive Shortens : List String → List String → Prop
  | nil : Shortens [] []
  | keep {steps steps' : List String} (step : String) (h : Shortens steps steps') :
      Shortens (step :: steps) (step :: steps')
  | drop {step : String} {steps steps' : List String} (hhere : step = ".")
      (h : Shortens steps steps') : Shortens (step :: steps) steps'

theorem shortens_filter (steps : List String) : Shortens steps (steps.filter (· ≠ ".")) := by
  induction steps with
  | nil => exact .nil
  | cons step rest ih =>
    by_cases hhere : step = "."
    · subst hhere
      exact .drop rfl ih
    · rw [List.filter_cons_of_pos (by simpa using hhere)]
      exact .keep step ih

theorem Shortens.append {steps steps' : List String} (front : List String)
    (h : Shortens steps steps') : Shortens (front ++ steps) (front ++ steps') := by
  induction front with
  | nil => exact h
  | cons step front ih => exact .keep step ih

/-- Steps that go nowhere do not matter on the way to a directory. -/
theorem walk_shortens
    (hwalk : d.walk base true links current steps = .ok (.entry path (.directory serial))) :
    ∀ {steps' : List String}, Shortens steps steps' →
      d.walk base true links current steps' = .ok (.entry path (.directory serial)) := by
  -- The induction is on the walk. Only a step `.` may be left out, and it leads nowhere; every
  -- other step is kept, and the walk takes the same branch at it.
  fun_induction d.walk base true links current steps with
  | case1 links current entry hentry =>
    intro steps' h
    cases h
    rw [walk, hentry]
    exact hwalk
  | case3 links current rest ih =>
    intro steps' h
    cases h with
    | keep _ h =>
      rw [walk_here]
      exact ih hwalk h
    | drop _ h => exact ih hwalk h
  | case5 links current rest hbase hhere ih =>
    intro steps' h
    cases h with
    | keep _ h =>
      rw [walk_above hbase]
      exact ih hwalk h
    | drop hc _ => exact absurd hc hhere
  | case9 links current step rest hhere habove hfits path' serial' hentry ih =>
    intro steps' h
    cases h with
    | keep _ h =>
      rw [walk_directory hhere habove hfits hentry]
      exact ih hwalk h
    | drop hc _ => exact absurd hc hhere
  | case15 current step rest hhere habove hfits path' target hentry hfollow links text habs hbase =>
    rename_i ih
    intro steps' h
    cases h with
    | keep _ h =>
      rw [walk_absolute hhere habove hfits hentry (by simp) habs hbase]
      exact ih hwalk (h.append text.steps)
    | drop hc _ => exact absurd hc hhere
  | case16 current step rest hhere habove hfits path' target hentry hfollow links text habs =>
    rename_i ih
    intro steps' h
    cases h with
    | keep _ h =>
      rw [walk_relative hhere habove hfits hentry (by simp) habs]
      exact ih hwalk (h.append text.steps)
    | drop hc _ => exact absurd hc hhere
  | _ => simp at hwalk

/-! ### One directory -/

theorem get?_makeDirectory (hpath : path ≠ []) (other : Path) :
    (d.makeDirectory path).get? other =
      if other = path then some (.directory d.serial) else d.get? other :=
  get?_set d path other _ hpath

theorem makeDirectory_sameTree (hpath : path ≠ []) (hfree : d.get? path = none) :
    SameTree d (d.makeDirectory path) where
  directory := by
    intro other serial hd
    rw [get?_makeDirectory hpath, if_neg, hd]
    rintro rfl
    rw [hfree] at hd
    cases hd
  link := by
    intro other target hl
    rw [get?_makeDirectory hpath, if_neg, hl]
    rintro rfl
    rw [hfree] at hl
    cases hl
  workdir := rfl

theorem Rooted.vacant (h : d.Rooted) (hfree : d.get? path = none) : d.Vacant path := by
  intro rest
  cases rest with
  | nil => rw [List.append_nil, hfree]
  | cons name rest => exact h.bare hfree name rest

theorem AddsDirectories.refl (d : Disk) : AddsDirectories d d :=
  fun _ => .inl rfl

theorem AddsDirectories.trans {d₁ d₂ : Disk} (h : AddsDirectories d d₁)
    (h' : AddsDirectories d₁ d₂) : AddsDirectories d d₂ := by
  intro path
  rcases h' path with hsame | hmade
  · rw [hsame]
    exact h path
  · exact .inr hmade

theorem makeDirectoryAt_adds {text : String} (h : d.makeDirectoryAt text = .ok d') :
    AddsDirectories d d' := by
  unfold makeDirectoryAt at h
  split at h
  · cases h
  · rename_i place hresolve
    cases h
    obtain ⟨hne, -⟩ := resolve_right hresolve
    intro other
    rw [get?_makeDirectory hne]
    by_cases hsame : other = place
    · rw [if_pos hsame]
      exact .inr ⟨d.serial, rfl⟩
    · rw [if_neg hsame]
      exact .inl rfl
  · cases h

/-- Whatever becomes of the steps of a path, directories are all that is made. -/
theorem makeSteps_adds (root : String) (steps : List String) :
    AddsDirectories d (d.makeSteps root steps).2 := by
  fun_induction makeSteps d root steps with
  | case1 => exact .refl d
  | case2 step before path d₁ hmade => exact makeDirectoryAt_adds hmade
  | case3 step before path hmissing fault d₁ hbefore ih =>
    rw [hbefore] at ih
    exact ih
  | case4 step before path hmissing d₁ hbefore d₂ hmade ih =>
    rw [hbefore] at ih
    exact ih.trans (makeDirectoryAt_adds hmade)
  | case5 step before path hmissing d₁ hbefore fault hmade ih =>
    rw [hbefore] at ih
    exact ih
  | case6 => exact .refl d

theorem Bare.makeDirectory (h : d.Bare path) (hpath : path ≠ []) :
    (d.makeDirectory path).Bare path := by
  intro name rest
  rw [get?_makeDirectory hpath, if_neg, h name rest]
  simp

theorem Bare.below (h : d.Bare path) (name : String) : d.Bare (path ++ [name]) := by
  intro name' rest
  rw [List.append_assoc, List.singleton_append]
  exact h name (name' :: rest)

/-- The steps lead to a directory in which there is nothing. -/
def LeadsToBare (d : Disk) (start : Path) (steps : List String) : Prop :=
  ∃ path serial, d.walk none true mostLinks start steps = .ok (.entry path (.directory serial)) ∧
    d.Bare path

theorem leadsToBare_makeDirectory {start : Path}
    (hwalk : d.walk none follow mostLinks start steps = .ok (.free path)) (hbare : d.Bare path) :
    (d.makeDirectory path).LeadsToBare start steps := by
  obtain ⟨hpath, hfree⟩ := walk_right hwalk
  have hmade : (d.makeDirectory path).get? path = some (.directory d.serial) := by
    rw [get?_makeDirectory hpath, if_pos rfl]
  exact ⟨path, d.serial, walk_made (makeDirectory_sameTree hpath hfree) hmade hwalk,
    hbare.makeDirectory hpath⟩

/-! ### The directories of a path -/

section

variable {root : String} {names before : List String} {step : String}

/-- Where the paths below a root start. -/
def startOf (d : Disk) (root : String) : Path :=
  if root = "/" then [] else d.workdir

theorem resolve_join (hroot : root = "" ∨ root = "/") (hne : names ≠ [])
    (hnames : ∀ name ∈ names, IsStep name) {place : Place}
    (h : d.resolve follow (root ++ "/".intercalate names) = .ok place) :
    d.walk none follow mostLinks (d.startOf root) names = .ok place := by
  rw [resolve_ok_iff, of_join hroot hne hnames] at h
  simpa [startOf] using h.2.2.2

theorem makeDirectoryAt_join (hroot : root = "" ∨ root = "/") (hne : names ≠ [])
    (hnames : ∀ name ∈ names, IsStep name)
    (h : d.makeDirectoryAt (root ++ "/".intercalate names) = .ok d') :
    ∃ path, d.walk none false mostLinks (d.startOf root) names = .ok (.free path) ∧
      d' = d.makeDirectory path := by
  unfold makeDirectoryAt at h
  split at h
  · cases h
  · rename_i path hresolve
    cases h
    exact ⟨path, resolve_join hroot hne hnames hresolve, rfl⟩
  · cases h

theorem isDirectory_join (hroot : root = "" ∨ root = "/") (hne : names ≠ [])
    (hnames : ∀ name ∈ names, IsStep name)
    (h : d.isDirectory (root ++ "/".intercalate names) = true) :
    ∃ path serial, d.walk none true mostLinks (d.startOf root) names =
      .ok (.entry path (.directory serial)) := by
  unfold isDirectory directoryAt at h
  split at h
  · rename_i path serial hresolve
    exact ⟨path, serial, resolve_join hroot hne hnames hresolve⟩
  · cases h
  · cases h
  · cases h

/-- The directory of the last step is made at once, it is there already, or those above it are
    made first. -/
theorem makeSteps_cons (h : d.makeSteps root (step :: before) = (.ok (), d')) :
    let path := root ++ "/".intercalate (step :: before).reverse
    d.makeDirectoryAt path = .ok d' ∨ d' = d ∨
      ∃ d₁, d.makeDirectoryAt path = .error .notFound ∧ d.makeSteps root before = (.ok (), d₁) ∧
        (d₁.makeDirectoryAt path = .ok d' ∨ d₁.isDirectory path = true ∧ d' = d₁) := by
  intro path
  rw [makeSteps] at h
  split at h
  · rename_i d₁ hmade
    cases h
    exact .inl hmade
  · rename_i hmade
    split at h
    · cases h
    · rename_i d₁ hbefore
      -- Those above are made, and then the last one is made once more or found there.
      refine .inr (.inr ⟨d₁, hmade, hbefore, ?_⟩)
      split at h
      · rename_i d₂ hmade'
        cases h
        exact .inl hmade'
      · by_cases hthere : d₁.isDirectory path = true
        · rw [if_pos hthere] at h
          cases h
          exact .inr ⟨hthere, rfl⟩
        · rw [if_neg hthere] at h
          cases h
  · by_cases hthere : d.isDirectory path = true
    · rw [if_pos hthere] at h
      cases h
      exact .inr (.inl rfl)
    · rw [if_neg hthere] at h
      cases h

theorem makeSteps_replicate (hroot : root = "" ∨ root = "/") (n : Nat)
    (h : d.makeSteps root (List.replicate n "..") = (.ok (), d')) : d' = d := by
  induction n generalizing d' with
  | zero =>
    cases h
    rfl
  | succ n ih =>
    rw [List.replicate_succ] at h
    have hups : ∀ name ∈ List.replicate (n + 1) "..", IsStep name := by
      intro name hname
      rw [List.eq_of_mem_replicate hname]
      exact ⟨by decide, by decide⟩
    -- To go up leads to no free place, so that nothing can be made there.
    have hnever {d₁ d₂ : Disk} : d₁.makeDirectoryAt
        (root ++ "/".intercalate (".." :: List.replicate n "..").reverse) ≠ .ok d₂ := by
      rw [← List.replicate_succ, List.reverse_replicate]
      intro hmade
      obtain ⟨path, hwalk, -⟩ := makeDirectoryAt_join hroot (by simp) hups hmade
      exact walk_replicate_ne_free _ hwalk
    rcases makeSteps_cons h with hmade | hsame | ⟨d₁, -, hbefore, hmade | ⟨-, hsame⟩⟩
    · exact absurd hmade hnever
    · exact hsame
    · exact absurd hmade hnever
    · rw [hsame, ih hbefore]

/-- When directories are made, the last one is new. -/
theorem makeSteps_bare (hrooted : d.Rooted) (hroot : root = "" ∨ root = "/") (n : Nat)
    (hnames : ∀ name ∈ names, IsStep name ∧ name ≠ "." ∧ name ≠ "..")
    (h : d.makeSteps root (names ++ List.replicate n "..") = (.ok (), d')) :
    d' = d ∨ d'.startOf root = d.startOf root ∧
      d'.LeadsToBare (d.startOf root) (names ++ List.replicate n "..").reverse := by
  induction names generalizing d' with
  | nil => exact .inl (makeSteps_replicate hroot n h)
  | cons step before ih =>
    have hsteps : ∀ name ∈ (step :: before ++ List.replicate n "..").reverse, IsStep name := by
      intro name hname
      rw [List.mem_reverse] at hname
      rcases List.mem_append.mp hname with hname | hname
      · exact (hnames name hname).1
      · rw [List.eq_of_mem_replicate hname]
        exact ⟨by decide, by decide⟩
    have hne : (step :: before ++ List.replicate n "..").reverse ≠ [] := by simp
    obtain ⟨-, hhere, habove⟩ := hnames step List.mem_cons_self
    -- Either the whole path was made at once, or nothing was, or what is above it was made first.
    rcases makeSteps_cons h with hmade | hsame | ⟨d₁, hmissing, hbefore, hlast⟩
    · obtain ⟨path, hwalk, rfl⟩ := makeDirectoryAt_join hroot hne hsteps hmade
      obtain ⟨-, hfree⟩ := walk_right hwalk
      exact .inr ⟨rfl, leadsToBare_makeDirectory hwalk (hrooted.bare hfree)⟩
    · exact .inl hsame
    · rcases ih (fun name hname => hnames name (List.mem_cons_of_mem _ hname)) hbefore with
        rfl | ⟨hstart, path, serial, hwalk, hbare⟩
      · -- Nothing was made above the step, so the second try ends as the first one did.
        rcases hlast with hmade | ⟨-, hsame⟩
        · rw [hmissing] at hmade
          cases hmade
        · exact .inl hsame
      · -- The directory above is bare, so that the step itself is free there.
        have hend (follow : Bool) : d₁.walk none follow mostLinks (d₁.startOf root)
            (step :: before ++ List.replicate n "..").reverse =
              if longestName < step.utf8ByteSize then .error .nameTooLong
              else .ok (.free (path ++ [step])) := by
          rw [List.cons_append, List.reverse_cons, hstart]
          exact walk_concat hhere habove hwalk (hbare step [])
        rcases hlast with hmade | ⟨hthere, -⟩
        · obtain ⟨path', hwalk', rfl⟩ := makeDirectoryAt_join hroot hne hsteps hmade
          have hplace := hend false
          rw [hwalk'] at hplace
          split at hplace
          · cases hplace
          · cases hplace
            refine .inr ⟨hstart, ?_⟩
            rw [← hstart]
            exact leadsToBare_makeDirectory hwalk' (hbare.below step)
        · obtain ⟨path', serial', hwalk'⟩ := isDirectory_join hroot hne hsteps hthere
          rw [hend] at hwalk'
          split at hwalk' <;> cases hwalk'

theorem goesDown_split (h : GoesDown steps) :
    ∃ n rest, steps.filter (· ≠ ".") = List.replicate n ".." ++ rest ∧
      ∀ name ∈ rest, name ∈ steps ∧ name ≠ "." ∧ name ≠ ".." := by
  unfold GoesDown at h
  induction steps with
  | nil => exact ⟨0, [], rfl, by simp⟩
  | cons step rest ih =>
    by_cases hhere : step = "."
    · subst hhere
      obtain ⟨n, names, hfilter, hnames⟩ := ih h
      refine ⟨n, names, hfilter, fun name hname => ?_⟩
      exact ⟨List.mem_cons_of_mem _ (hnames name hname).1, (hnames name hname).2⟩
    · rw [List.filter_cons_of_pos (by simpa using hhere)]
      by_cases habove : step = ".."
      · subst habove
        obtain ⟨n, names, hfilter, hnames⟩ := ih h
        refine ⟨n + 1, names, by rw [hfilter, List.replicate_succ, List.cons_append], ?_⟩
        intro name hname
        exact ⟨List.mem_cons_of_mem _ (hnames name hname).1, (hnames name hname).2⟩
      · -- From the first name on, no step leads up any more.
        rw [List.dropWhile_cons_of_neg (by simp [hhere, habove])] at h
        refine ⟨0, step :: rest.filter (· ≠ "."), rfl, fun name hname => ?_⟩
        rcases List.mem_cons.mp hname with rfl | hname
        · exact ⟨List.mem_cons_self, hhere, habove⟩
        · obtain ⟨hmem, hne⟩ := List.mem_filter.mp hname
          refine ⟨List.mem_cons_of_mem _ hmem, by simpa using hne, ?_⟩
          rintro rfl
          exact h (List.mem_cons_of_mem _ hmem)

/-- A path that led nowhere, and is made to lead to a directory, leads to a new one. -/
theorem makeDirectories_bare {text : String} (hrooted : d.Rooted)
    (hdown : GoesDown (PathText.of text).steps) (hfree : d.exists? text = false)
    (hmake : d.makeDirectories text = (.ok (), d')) {handle : Handle}
    (hopen : d'.directoryAt text = .ok handle) : d'.Bare handle.path := by
  obtain ⟨n, rest, hfilter, hrest⟩ := goesDown_split hdown
  let root := if (PathText.of text).absolute then "/" else ""
  have hroot : root = "" ∨ root = "/" := by
    by_cases habs : (PathText.of text).absolute = true
    · exact .inr (if_pos habs)
    · exact .inl (if_neg habs)
  have hmade : d.makeSteps root (rest.reverse ++ List.replicate n "..") = (.ok (), d') := by
    rw [← hmake, makeDirectories]
    simp only [hfilter, List.reverse_append, List.reverse_replicate]
    rfl
  have hresolve := directoryAt_ok_iff.mp hopen
  rcases makeSteps_bare hrooted hroot n
      (fun name hname => have hname := hrest name (List.mem_reverse.mp hname)
        ⟨isStep_of_mem hname.1, hname.2⟩) hmade with
    rfl | ⟨hstart, path, serial, hwalk, hbare⟩
  · -- Nothing was made, so the path led there before.
    rw [exists?, hresolve] at hfree
    cases hfree
  · have hsteps : d'.walk none true mostLinks (d'.startOf root) (PathText.of text).steps =
        .ok (.entry handle.path (.directory handle.serial)) := by
      rw [← (resolve_ok_iff.mp hresolve).2.2.2]
      cases habs : (PathText.of text).absolute <;> simp [startOf, root, habs]
    -- The steps that were made are those of the path without the ones that stay in place.
    have hshort := walk_shortens hsteps (shortens_filter _)
    rw [List.reverse_append, List.reverse_reverse, List.reverse_replicate, ← hfilter, ← hstart,
      hshort] at hwalk
    cases hwalk
    exact hbare

end

end DeploymentBackup.Disk
