import DeploymentBackup.Proofs.Disk.Directory

namespace DeploymentBackup.Disk

open Text

/-!
# Paths to directories

Where a path leads to a directory, only directories and links are on its way. As long as these
stay, the path leads to the same directory, whatever becomes of the files.

* `SameTree` — the directories and links of one disk are on another one too.
* `walk_sameTree`, `directoryAt_sameTree` — paths to directories stay what they are.
* `walk_right` — what is at the end of a walk.
* `writeIn_sameTree` — to write a file keeps the tree.
* `resolveIn_writeIn` — what was written is found again.
-/

/-- Every directory and every link is still there. -/
structure SameTree (d d' : Disk) : Prop where
  directory : ∀ path serial, d.get? path = some (.directory serial) →
    d'.get? path = some (.directory serial)
  link : ∀ path target, d.get? path = some (.link target) → d'.get? path = some (.link target)
  workdir : d'.workdir = d.workdir

variable {d d' d'' : Disk}

theorem SameTree.refl (d : Disk) : SameTree d d :=
  ⟨fun _ _ h => h, fun _ _ h => h, rfl⟩

theorem SameTree.trans (h : SameTree d d') (h' : SameTree d' d'') : SameTree d d'' where
  directory := fun path serial hd => h'.directory path serial (h.directory path serial hd)
  link := fun path target hl => h'.link path target (h.link path target hl)
  workdir := h'.workdir.trans h.workdir

theorem Stores.sameTree {path : Path} {contents : Bytes} (h : Stores d d' path contents) :
    SameTree d d' where
  directory := by
    intro other serial hd
    by_cases hsame : other = path
    · subst hsame
      obtain ⟨old, executable, hfile⟩ := h.before _ hd
      cases hfile
    · rw [h.elsewhere other hsame, hd]
  link := by
    intro other target hl
    by_cases hsame : other = path
    · subst hsame
      obtain ⟨old, executable, hfile⟩ := h.before _ hl
      cases hfile
    · rw [h.elsewhere other hsame, hl]
  workdir := h.workdir

/-- A walk that ends in a directory ends there on every disk with this tree. -/
theorem walk_sameTree (h : SameTree d d') {base : Option Path} {follow : Bool} {links : Nat}
    {current path : Path} {steps : List String} {serial : Nat}
    (hwalk : d.walk base follow links current steps = .ok (.entry path (.directory serial))) :
    d'.walk base follow links current steps = .ok (.entry path (.directory serial)) := by
  -- Every other way of the walk ends in a fault, in a file or in a free place.
  fun_induction d.walk base follow links current steps with
  | case1 links current entry hentry =>
    cases hwalk
    rw [walk, h.directory _ _ hentry]
  | case3 links current rest ih =>
    rw [walk_here]
    exact ih hwalk
  | case5 links current rest hbase hhere ih =>
    rw [walk_above hbase]
    exact ih hwalk
  | case9 links current step rest hhere habove hfits path' serial' hentry ih =>
    rw [walk_directory hhere habove hfits (h.directory _ _ hentry)]
    exact ih hwalk
  | case15 current step rest hhere habove hfits path' target hentry hfollow links text habs hbase =>
    rename_i ih
    rw [walk_absolute hhere habove hfits (h.link _ _ hentry) hfollow habs hbase]
    exact ih hwalk
  | case16 current step rest hhere habove hfits path' target hentry hfollow links text habs ih =>
    rw [walk_relative hhere habove hfits (h.link _ _ hentry) hfollow habs]
    exact ih hwalk
  | _ => simp at hwalk

/-- A path that leads to a directory leads to the same one. -/
theorem directoryAt_sameTree (h : SameTree d d') {path : String} {handle : Handle}
    (hopen : d.directoryAt path = .ok handle) : d'.directoryAt path = .ok handle := by
  rw [directoryAt_ok_iff, resolve_ok_iff] at hopen ⊢
  obtain ⟨hzero, hempty, hlong, hwalk⟩ := hopen
  rw [h.workdir]
  exact ⟨hzero, hempty, hlong, walk_sameTree h hwalk⟩

/-! ### Writing through any path -/

/-- What is at a place. -/
def Place.Right (d : Disk) : Place → Prop
  | .entry path found => d.get? path = some found
  | .free path => path ≠ [] ∧ d.get? path = none

/-- A walk ends where it says. -/
theorem walk_right {base : Option Path} {follow : Bool} {links : Nat} {current : Path}
    {steps : List String} {place : Place}
    (hwalk : d.walk base follow links current steps = .ok place) : place.Right d := by
  -- A way ends where the disk was looked at, or it goes on; all other cases fail.
  fun_induction d.walk base follow links current steps with
  | case1 links current entry hentry =>
    cases hwalk
    exact hentry
  | case3 links current rest ih => exact ih hwalk
  | case5 links current rest hbase hhere ih => exact ih hwalk
  | case7 links current step rest hhere habove hfits path' hentry hlast =>
    cases hwalk
    exact ⟨by simp [path'], hentry⟩
  | case9 links current step rest hhere habove hfits path' serial' hentry ih => exact ih hwalk
  | case10 links current step rest hhere habove hfits path' old executable hentry hlast =>
    cases hwalk
    exact hentry
  | case12 links current step rest hhere habove hfits path' target hentry hfollow =>
    cases hwalk
    exact hentry
  | case15 current step rest hhere habove hfits path' target hentry hfollow links text habs hbase =>
    rename_i ih
    exact ih hwalk
  | case16 current step rest hhere habove hfits path' target hentry hfollow links text habs ih =>
    exact ih hwalk
  | _ => cases hwalk

theorem resolve_right {follow : Bool} {path : String} {place : Place}
    (h : d.resolve follow path = .ok place) : place.Right d :=
  walk_right (resolve_ok_iff.mp h).2.2.2

theorem resolveIn_right {handle : Handle} {path : String} {place : Place}
    (h : d.resolveIn handle path = .ok place) : place.Right d :=
  walk_right (resolveIn_ok_iff.mp h).2.2.2.2.2

/-- An opened directory is there. -/
theorem isOpen_of_directoryAt {path : String} {handle : Handle}
    (h : d.directoryAt path = .ok handle) : d.isOpen handle = true := by
  have hentry : d.get? handle.path = _ := resolve_right (directoryAt_ok_iff.mp h)
  simp [isOpen, hentry]

theorem SameTree.isOpen (h : SameTree d d') {handle : Handle} (hopen : d.isOpen handle = true) :
    d'.isOpen handle = true := by
  have hentry : d.get? handle.path = some (.directory handle.serial) := by
    simpa [Disk.isOpen] using hopen
  simp [Disk.isOpen, h.directory _ _ hentry]

/-- Whatever a path leads to, no directory and no link is lost when a file is written. -/
theorem createIn_sameTree {handle : Handle} {path : String} {file : WriteHandle}
    (h : d.createIn handle path = .ok (file, d')) : SameTree d d' := by
  unfold createIn at h
  split at h
  · rename_i place old executable hresolve
    cases h
    have hentry : d.get? place = _ := resolveIn_right hresolve
    exact (set_stores (ne_nil_of_file hentry) (overwritable_of_file hentry) [] executable).sameTree
  · cases h
  · rename_i place hresolve
    cases h
    obtain ⟨hne, hfree⟩ := resolveIn_right hresolve
    exact (set_stores hne (overwritable_of_free hfree) [] false).sameTree
  · cases h

theorem write_sameTree (d : Disk) (file : WriteHandle) (contents : Bytes) :
    SameTree d (d.write file contents) := by
  unfold write
  split
  · rename_i old executable hentry
    exact (set_stores (ne_nil_of_file hentry) (overwritable_of_file hentry)
      contents executable).sameTree
  · exact .refl d

theorem writeIn_sameTree {handle : Handle} {path : String} {contents : Bytes}
    (h : d.writeIn handle path contents = .ok d') : SameTree d d' := by
  unfold writeIn at h
  cases hcreate : d.createIn handle path with
  | error fault =>
    rw [hcreate] at h
    cases h
  | ok created =>
    obtain ⟨file, d₁⟩ := created
    rw [hcreate] at h
    cases h
    exact (createIn_sameTree hcreate).trans (write_sameTree d₁ file contents)

/-- A file can be written at a place: nothing is there, or a file. -/
def Place.Writable (path : Path) : Place → Prop
  | .entry other found => other = path ∧ ∃ old executable, found = .file old executable
  | .free other => other = path

/-- A walk to where a file is written leads to this file afterwards. -/
theorem walk_written (htree : SameTree d d') {path : Path} {contents : Bytes} {executable : Bool}
    (hfile : d'.get? path = some (.file contents executable)) {base : Option Path} {links : Nat}
    {current : Path} {steps : List String} {place : Place}
    (hwalk : d.walk base true links current steps = .ok place) (hplace : place.Writable path) :
    d'.walk base true links current steps = .ok (.entry path (.file contents executable)) := by
  -- The walk takes the same way on both disks, and only its last step differs.
  fun_induction d.walk base true links current steps with
  | case1 links current entry hentry =>
    cases hwalk
    obtain ⟨rfl, -⟩ := hplace
    rw [walk, hfile]
  | case3 links current rest ih =>
    rw [walk_here]
    exact ih hwalk
  | case5 links current rest hbase hhere ih =>
    rw [walk_above hbase]
    exact ih hwalk
  | case7 links current step rest hhere habove hfits path' hentry hlast =>
    cases hwalk
    obtain rfl : path' = path := hplace
    rw [walk_file hhere habove hfits hfile, if_pos hlast]
  | case9 links current step rest hhere habove hfits path' serial' hentry ih =>
    rw [walk_directory hhere habove hfits (htree.directory _ _ hentry)]
    exact ih hwalk
  | case10 links current step rest hhere habove hfits path' old executable' hentry hlast =>
    cases hwalk
    obtain ⟨rfl, -⟩ : path' = path ∧ _ := hplace
    rw [walk_file hhere habove hfits hfile, if_pos hlast]
  | case15 current step rest hhere habove hfits path' target hentry hfollow links text habs hbase =>
    rename_i ih
    rw [walk_absolute hhere habove hfits (htree.link _ _ hentry) hfollow habs hbase]
    exact ih hwalk
  | case16 current step rest hhere habove hfits path' target hentry hfollow links text habs ih =>
    rw [walk_relative hhere habove hfits (htree.link _ _ hentry) hfollow habs]
    exact ih hwalk
  | _ => simp_all

theorem resolveIn_written (htree : SameTree d d') {path : Path} {contents : Bytes}
    {executable : Bool} (hfile : d'.get? path = some (.file contents executable)) {handle : Handle}
    {name : String} {place : Place} (h : d.resolveIn handle name = .ok place)
    (hplace : place.Writable path) :
    d'.resolveIn handle name = .ok (.entry path (.file contents executable)) := by
  rw [resolveIn_ok_iff] at h ⊢
  obtain ⟨hzero, hempty, hlong, habs, hopen, hwalk⟩ := h
  exact ⟨hzero, hempty, hlong, habs, htree.isOpen hopen, walk_written htree hfile hwalk hplace⟩

/-- What was written through any path is what is found there. -/
theorem resolveIn_writeIn {handle : Handle} {name : String} {contents : Bytes}
    (h : d.writeIn handle name contents = .ok d') :
    ∃ path executable,
      d'.resolveIn handle name = .ok (.entry path (.file contents executable)) := by
  have htree := writeIn_sameTree h
  unfold writeIn createIn at h
  cases hresolve : d.resolveIn handle name with
  | error fault =>
    rw [hresolve] at h
    cases h
  | ok place =>
    have hright := resolveIn_right hresolve
    -- The file is emptied or made first, and then it is written.
    have hwritten {path : Path} (hne : path ≠ []) (executable : Bool)
        (heq : (d.set path (.file [] executable)).write ⟨path⟩ contents = d') :
        d'.get? path = some (.file contents executable) := by
      have hempty : (d.set path (.file [] executable)).get? path = some (.file [] executable) := by
        rw [get?_set _ _ _ _ hne, if_pos rfl]
      rw [← heq, write]
      simp only [hempty]
      rw [get?_set _ _ _ _ hne, if_pos rfl]
    rw [hresolve] at h
    cases place with
    | free path =>
      obtain ⟨hne, -⟩ : path ≠ [] ∧ _ := hright
      exact ⟨path, false,
        resolveIn_written htree (hwritten hne false (Except.ok.inj h)) hresolve rfl⟩
    | entry path found =>
      cases found with
      | file old executable =>
        have hne : path ≠ [] := by
          rintro rfl
          cases hright
        exact ⟨path, executable, resolveIn_written htree
          (hwritten hne executable (Except.ok.inj h)) hresolve ⟨rfl, old, executable, rfl⟩⟩
      | directory serial => cases h
      | link target => cases h

/-- What has no links had none. -/
theorem SameTree.clean (h : SameTree d d') {handle : Handle} (hopen : d.isOpen handle = true)
    (hlinks : ∀ name target, d'.get? (handle.entry name) ≠ some (.link target)) :
    Clean d handle where
  isOpen := hopen
  noLinks := fun name target hlink => hlinks name target (h.link _ _ hlink)

end DeploymentBackup.Disk
