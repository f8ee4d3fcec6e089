import DeploymentBackup.Disk.Files
import DeploymentBackup.Proofs.Text.Lines

namespace DeploymentBackup.Disk

open Text

/-!
# Files of an opened directory

In a directory without links, a plain name leads to the entry of this name and nowhere else.
To write a file there changes this entry alone.

* `PlainName` — a name that is a path of one step.
* `nameFault?` — why no entry can have a name.
* `Clean` — an opened directory without links.
* `walk_directory`, `walk_absolute`, `walk_relative` — one step of a walk.
* `resolve_ok_iff`, `resolveIn_ok_iff` — what a path that leads somewhere is made of.
* `resolveIn_plain` — where a plain name leads.
* `Stores` — one file was written and nothing else has changed.
* `createIn_stores`, `write_stores`, `writeIn_stores` — what writing a file does.
-/

/-! ### Plain names -/

/-- A name that is a path of one step. -/
structure PlainName (name : String) : Prop where
  ne_empty : name ≠ ""
  no_slash : '/' ∉ name.toList
  ne_here : name ≠ "."
  ne_above : name ≠ ".."

theorem PlainName.steps {name : String} (h : PlainName name) :
    PathText.of name = ⟨false, [name]⟩ := by
  have hne : name.toList ≠ [] := by
    intro hnil
    exact h.ne_empty (String.toList_eq_nil_iff.mp hnil)
  have hhead : name.toList.head? ≠ some '/' := fun hc => h.no_slash (List.mem_of_mem_head? hc)
  have hlast : name.toList.getLast? ≠ some '/' := fun hc => h.no_slash (List.mem_of_getLast? hc)
  unfold PathText.of
  simp only [pieces_of_not_mem h.no_slash, hhead, hlast, decide_false, if_false]
  simp [hne]

/-- Why no entry can have a name: it holds a zero character, or it is too long. -/
def nameFault? (name : String) : Option Fault :=
  if hasChar name '\x00' then some .invalid
  else if longestName < name.utf8ByteSize then some .nameTooLong
  else none

theorem nameFault?_eq_none {name : String} (h : nameFault? name = none) :
    ¬ hasChar name '\x00' = true ∧ ¬ longestName < name.utf8ByteSize ∧
      ¬ longestPath < name.utf8ByteSize := by
  unfold nameFault? at h
  split at h
  · cases h
  · rename_i hzero
    split at h
    · cases h
    · rename_i hlong
      refine ⟨hzero, hlong, ?_⟩
      simp only [longestPath, longestName] at *
      omega

/-! ### Clean directories -/

/-- The path of a name in an opened directory. -/
def Handle.entry (h : Handle) (name : String) : Path :=
  h.path ++ [name]

theorem Handle.entry_ne_nil (h : Handle) (name : String) : h.entry name ≠ [] := by
  simp [Handle.entry]

theorem Handle.entry_ne_path (h : Handle) (name : String) : h.path ≠ h.entry name := by
  intro hc
  have hlength := congrArg List.length hc
  simp [Handle.entry] at hlength

theorem Handle.entry_injective {h : Handle} {name other : String}
    (heq : h.entry name = h.entry other) : name = other := by
  simpa [Handle.entry] using heq

/-- The directory is open, and none of its entries is a link. -/
structure Clean (d : Disk) (h : Handle) : Prop where
  isOpen : d.isOpen h = true
  noLinks : ∀ name target, d.get? (h.entry name) ≠ some (.link target)

variable {d d' d'' : Disk} {h : Handle} {name : String}

/-! ### One step of a walk -/

section Steps

variable {base : Option Path} {follow : Bool} {links serial : Nat} {current : Path}
  {step target : String} {rest : List String}

theorem walk_here :
    d.walk base follow links current ("." :: rest) = d.walk base follow links current rest := by
  rw [walk, if_pos rfl]

theorem walk_above (hbase : base ≠ some current) :
    d.walk base follow links current (".." :: rest) =
      d.walk base follow links current.dropLast rest := by
  rw [walk, if_neg (by decide), if_pos rfl, if_neg hbase]

theorem walk_free (hhere : step ≠ ".") (habove : step ≠ "..")
    (hfits : ¬ longestName < step.utf8ByteSize) (hfree : d.get? (current ++ [step]) = none) :
    d.walk base follow links current (step :: rest) =
      if rest.isEmpty then .ok (.free (current ++ [step])) else .error .notFound := by
  rw [walk, if_neg hhere, if_neg habove, if_neg hfits]
  simp only [hfree]

theorem walk_directory (hhere : step ≠ ".") (habove : step ≠ "..")
    (hfits : ¬ longestName < step.utf8ByteSize)
    (hthere : d.get? (current ++ [step]) = some (.directory serial)) :
    d.walk base follow links current (step :: rest) =
      d.walk base follow links (current ++ [step]) rest := by
  rw [walk, if_neg hhere, if_neg habove, if_neg hfits]
  simp only [hthere]

theorem walk_file {contents : Bytes} {executable : Bool} (hhere : step ≠ ".") (habove : step ≠ "..")
    (hfits : ¬ longestName < step.utf8ByteSize)
    (hthere : d.get? (current ++ [step]) = some (.file contents executable)) :
    d.walk base follow links current (step :: rest) =
      if rest.isEmpty then .ok (.entry (current ++ [step]) (.file contents executable))
      else .error .notDirectory := by
  rw [walk, if_neg hhere, if_neg habove, if_neg hfits]
  simp only [hthere]

theorem walk_absolute (hhere : step ≠ ".") (habove : step ≠ "..")
    (hfits : ¬ longestName < step.utf8ByteSize)
    (hthere : d.get? (current ++ [step]) = some (.link target))
    (hfollow : ¬ (rest.isEmpty && !follow) = true) (habs : (PathText.of target).absolute = true)
    (hbase : ¬ base.isSome = true) :
    d.walk base follow (links + 1) current (step :: rest) =
      d.walk base follow links [] ((PathText.of target).steps ++ rest) := by
  rw [walk, if_neg hhere, if_neg habove, if_neg hfits]
  simp only [hthere]
  rw [if_neg hfollow, if_pos habs, if_neg hbase]

theorem walk_relative (hhere : step ≠ ".") (habove : step ≠ "..")
    (hfits : ¬ longestName < step.utf8ByteSize)
    (hthere : d.get? (current ++ [step]) = some (.link target))
    (hfollow : ¬ (rest.isEmpty && !follow) = true)
    (habs : ¬ (PathText.of target).absolute = true) :
    d.walk base follow (links + 1) current (step :: rest) =
      d.walk base follow links current ((PathText.of target).steps ++ rest) := by
  rw [walk, if_neg hhere, if_neg habove, if_neg hfits]
  simp only [hthere]
  rw [if_neg hfollow, if_neg habs]

end Steps

/-! ### Paths that lead somewhere -/

theorem resolve_ok_iff {follow : Bool} {path : String} {place : Place} :
    d.resolve follow path = .ok place ↔
      ¬ hasChar path '\x00' = true ∧ ¬ path.isEmpty = true ∧
        ¬ longestPath < path.utf8ByteSize ∧
        d.walk none follow mostLinks (if (PathText.of path).absolute then [] else d.workdir)
          (PathText.of path).steps = .ok place := by
  unfold resolve
  by_cases hzero : hasChar path '\x00' = true
  · simp [hzero]
  · by_cases hempty : path.isEmpty = true
    · simp [hzero, hempty]
    · by_cases hlong : longestPath < path.utf8ByteSize
      · simp [hzero, hempty, hlong]
      · simp [hzero, hempty, hlong]

theorem resolveIn_ok_iff {path : String} {place : Place} :
    d.resolveIn h path = .ok place ↔
      ¬ hasChar path '\x00' = true ∧ ¬ path.isEmpty = true ∧
        ¬ longestPath < path.utf8ByteSize ∧ ¬ (PathText.of path).absolute = true ∧
        d.isOpen h = true ∧
        d.walk (some h.path) true mostLinks h.path (PathText.of path).steps = .ok place := by
  unfold resolveIn
  by_cases hzero : hasChar path '\x00' = true
  · simp [hzero]
  · by_cases hempty : path.isEmpty = true
    · simp [hzero, hempty]
    · by_cases hlong : longestPath < path.utf8ByteSize
      · simp [hzero, hempty, hlong]
      · by_cases habs : (PathText.of path).absolute = true
        · simp [hzero, hempty, hlong, habs]
        · by_cases hopen : d.isOpen h = true
          · simp [hzero, hempty, hlong, habs, hopen]
          · simp [hzero, hempty, hlong, habs, hopen]

theorem directoryAt_ok_iff {path : String} :
    d.directoryAt path = .ok h ↔
      d.resolve true path = .ok (.entry h.path (.directory h.serial)) := by
  unfold directoryAt
  constructor
  · intro hopen
    split at hopen
    · rename_i place serial hresolve
      cases hopen
      exact hresolve
    · cases hopen
    · cases hopen
    · cases hopen
  · intro hresolve
    rw [hresolve]

/-! ### Plain names inside a directory -/

/-- A plain name that no entry can have leads nowhere. -/
theorem resolveIn_refused (hplain : PlainName name) (hclean : Clean d h) {fault : Fault}
    (hrefused : nameFault? name = some fault) : d.resolveIn h name = .error fault := by
  have hempty : name.isEmpty = false := by simpa using hplain.ne_empty
  unfold nameFault? at hrefused
  unfold resolveIn
  split at hrefused
  · rename_i hzero
    cases hrefused
    simp only [hzero, if_true]
  · rename_i hzero
    split at hrefused
    · rename_i hlong
      cases hrefused
      simp only [hzero, hempty, hplain.steps, hclean.isOpen, Bool.false_eq_true, if_false,
        Bool.not_true]
      rw [walk]
      simp only [hplain.ne_here, hplain.ne_above, hlong, if_false, if_true, ite_self]
    · cases hrefused

/-- A plain name leads to its entry, or it is free. -/
theorem resolveIn_plain (hplain : PlainName name) (hclean : Clean d h)
    (hfits : nameFault? name = none) :
    d.resolveIn h name =
      match d.get? (h.entry name) with
      | none => .ok (.free (h.entry name))
      | some entry => .ok (.entry (h.entry name) entry) := by
  have hempty : name.isEmpty = false := by simpa using hplain.ne_empty
  obtain ⟨hzero, hname, hpath⟩ := nameFault?_eq_none hfits
  unfold resolveIn
  simp only [hzero, hempty, hplain.steps, hclean.isOpen, hpath, Bool.false_eq_true, if_false,
    Bool.not_true]
  rcases hentry : d.get? (h.entry name) with _ | serial | ⟨contents, executable⟩ | target
  · exact walk_free hplain.ne_here hplain.ne_above hname hentry
  · rw [walk_directory hplain.ne_here hplain.ne_above hname hentry, walk]
    change d.get? (h.path ++ [name]) = _ at hentry
    rw [hentry]
    rfl
  · exact walk_file hplain.ne_here hplain.ne_above hname hentry
  · exact absurd hentry (hclean.noLinks name target)

/-! ### Writing one file -/

/-- One file was written, where nothing or a file was before. -/
structure Stores (d d' : Disk) (path : Path) (contents : Bytes) : Prop where
  before : ∀ entry, d.get? path = some entry → ∃ old executable, entry = .file old executable
  here : ∃ executable, d'.get? path = some (.file contents executable)
  elsewhere : ∀ other, other ≠ path → d'.get? other = d.get? other
  workdir : d'.workdir = d.workdir

section Places

variable {path : Path} {old : Bytes} {executable : Bool}

/-- A file stands below the root. -/
theorem ne_nil_of_file (hfile : d.get? path = some (.file old executable)) : path ≠ [] := by
  rintro rfl
  simp [get?] at hfile

theorem overwritable_of_file (hfile : d.get? path = some (.file old executable)) (entry : Entry)
    (he : d.get? path = some entry) : ∃ old executable, entry = .file old executable := by
  rw [hfile] at he
  cases he
  exact ⟨old, executable, rfl⟩

theorem overwritable_of_free (hfree : d.get? path = none) (entry : Entry)
    (he : d.get? path = some entry) : ∃ old executable, entry = .file old executable := by
  rw [hfree] at he
  cases he

end Places

theorem set_stores {path : Path} (hpath : path ≠ [])
    (hbefore : ∀ entry, d.get? path = some entry → ∃ old executable, entry = .file old executable)
    (contents : Bytes) (executable : Bool) :
    Stores d (d.set path (.file contents executable)) path contents where
  before := hbefore
  here := ⟨executable, by rw [get?_set _ _ _ _ hpath, if_pos rfl]⟩
  elsewhere := by
    intro other hother
    rw [get?_set _ _ _ _ hpath, if_neg hother]
  workdir := rfl

/-- A file may be written again. -/
theorem Stores.again {path : Path} {contents contents' : Bytes} (hfirst : Stores d d' path contents)
    (hsecond : Stores d' d'' path contents') : Stores d d'' path contents' where
  before := hfirst.before
  here := hsecond.here
  elsewhere := by
    intro other hother
    rw [hsecond.elsewhere other hother, hfirst.elsewhere other hother]
  workdir := hsecond.workdir.trans hfirst.workdir

theorem Stores.clean {contents : Bytes} (hstores : Stores d d' (h.entry name) contents)
    (hclean : Clean d h) : Clean d' h where
  isOpen := by
    unfold Disk.isOpen
    rw [hstores.elsewhere _ (h.entry_ne_path name)]
    exact hclean.isOpen
  noLinks := by
    intro other target hlink
    by_cases hsame : h.entry other = h.entry name
    · obtain ⟨executable, hhere⟩ := hstores.here
      rw [hsame, hhere] at hlink
      cases hlink
    · rw [hstores.elsewhere _ hsame] at hlink
      exact hclean.noLinks other target hlink

theorem write_stores {file : WriteHandle} {old : Bytes} {executable : Bool}
    (hfile : d.get? file.path = some (.file old executable)) (contents : Bytes) :
    Stores d (d.write file contents) file.path contents := by
  unfold write
  rw [hfile]
  exact set_stores (ne_nil_of_file hfile) (overwritable_of_file hfile) contents executable

/-- What is written into a file that was made empty is all that the file holds. -/
theorem Stores.write {path : Path} (hempty : Stores d d' path []) {file : WriteHandle}
    (hfile : file.path = path) (contents : Bytes) :
    Stores d (d'.write file contents) path contents := by
  subst hfile
  obtain ⟨executable, hhere⟩ := hempty.here
  exact hempty.again (write_stores hhere contents)

/-- A file that was opened for writing holds what is written into it, whatever that is. -/
theorem createIn_stores {file : WriteHandle} (hplain : PlainName name) (hclean : Clean d h)
    (hcreate : d.createIn h name = .ok (file, d')) :
    nameFault? name = none ∧
      ∀ contents, Stores d (d'.write file contents) (h.entry name) contents := by
  cases hfits : nameFault? name with
  | some fault =>
    unfold createIn at hcreate
    rw [resolveIn_refused hplain hclean hfits] at hcreate
    cases hcreate
  | none =>
    unfold createIn at hcreate
    rw [resolveIn_plain hplain hclean hfits] at hcreate
    rcases hentry : d.get? (h.entry name) with _ | serial | ⟨old, executable⟩ | target
    · rw [hentry] at hcreate
      cases hcreate
      exact ⟨rfl, (set_stores (h.entry_ne_nil name) (overwritable_of_free hentry)
        [] false).write rfl⟩
    · rw [hentry] at hcreate
      cases hcreate
    · rw [hentry] at hcreate
      cases hcreate
      exact ⟨rfl, (set_stores (h.entry_ne_nil name) (overwritable_of_file hentry)
        [] executable).write rfl⟩
    · exact absurd hentry (hclean.noLinks name target)

theorem createIn_file (hplain : PlainName name) (hclean : Clean d h)
    (hfits : nameFault? name = none)
    (hbefore : ∀ entry, d.get? (h.entry name) = some entry →
      ∃ old executable, entry = .file old executable) :
    ∃ file d', d.createIn h name = .ok (file, d') := by
  unfold createIn
  rw [resolveIn_plain hplain hclean hfits]
  rcases hentry : d.get? (h.entry name) with _ | entry
  · exact ⟨_, _, rfl⟩
  · obtain ⟨old, executable, rfl⟩ := hbefore entry hentry
    exact ⟨_, _, rfl⟩

theorem writeIn_stores {contents : Bytes} (hplain : PlainName name) (hclean : Clean d h)
    (hwrite : d.writeIn h name contents = .ok d') : Stores d d' (h.entry name) contents := by
  unfold writeIn at hwrite
  cases hcreate : d.createIn h name with
  | error fault =>
    rw [hcreate] at hwrite
    cases hwrite
  | ok created =>
    obtain ⟨file, d₁⟩ := created
    rw [hcreate] at hwrite
    cases hwrite
    exact (createIn_stores hplain hclean hcreate).2 contents

/-- To replace the contents of a file does not fail. -/
theorem writeIn_file (hplain : PlainName name) (hclean : Clean d h)
    (hfits : nameFault? name = none)
    (hbefore : ∀ entry, d.get? (h.entry name) = some entry →
      ∃ old executable, entry = .file old executable) (contents : Bytes) :
    ∃ d', d.writeIn h name contents = .ok d' := by
  obtain ⟨file, d₁, hcreate⟩ := createIn_file hplain hclean hfits hbefore
  unfold writeIn
  rw [hcreate]
  exact ⟨_, rfl⟩

end DeploymentBackup.Disk
