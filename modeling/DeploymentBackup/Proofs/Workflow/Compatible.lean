import DeploymentBackup.Proofs.Workflow.RoundTrip
import DeploymentBackup.Proofs.Workflow.Verified

namespace DeploymentBackup

open Text Artifact Workflow

/-!
# A backup and its own deployment

A backup asks every instance whether it is capable of a backup, and records the blobs of those
that are. A restore expects a record of every instance that holds a blob of its own, and does
not ask about backups. The two views are the same unless an instance holds such a blob and is
not capable of a backup: it is passed over without a failure, and a restore into the very
deployment that was backed up is refused then.

* `Instance.Steady` — an instance whose answers stay the same.
* `owners`, `passedOver` — the instances with a blob of their own, and those among them that a
  backup does not ask for it.
* `recorded_of_completed` — what a completed backup records of steady instances.
* `compatibility_iff` — when a restore is refused for what is recorded.
* `restore_of_own_backup` — both, for the same deployment.
-/

variable {F ε : Type}

/-! ### Steady instances -/

/-- The blobs that an instance lists. -/
def Instance.listed (i : Instance F) (f : F) : Except Halt (List Identifier) :=
  (i.blobs f).1.map fun bs => bs.map (·.id)

/-- What the instance holds and whether it is capable of a backup stays the same, and its own
    blobs have its identifier. -/
structure Instance.Steady (i : Instance F) : Prop where
  capable : ∀ f f', (i.capable .backup f').1 = (i.capable .backup f).1
  lists : ∀ f f', i.listed f' = i.listed f
  own : ∀ f ids, i.listed f = .ok ids → ∀ blob ∈ ids, blob.isNamed = false → blob = i.id

/-- The instance lists a blob of its own. -/
def Instance.ownsData (i : Instance F) (f : F) : Bool :=
  match i.listed f with
  | .ok ids => ids.any (! ·.isNamed)
  | .error _ => false

/-- The instance says that it is capable of a backup. -/
def Instance.backsUp (i : Instance F) (f : F) : Bool :=
  match (i.capable .backup f).1 with
  | .ok able => able
  | .error _ => false

theorem Instance.Steady.ownsData_eq {i : Instance F} (h : i.Steady) (f f' : F) :
    i.ownsData f' = i.ownsData f := by
  unfold ownsData
  rw [h.lists f f']

/-- An instance with a blob of its own that is capable of everything but a backup. -/
def Instance.unsaved (own : Identifier) : Instance Contents :=
  { Instance.kept 0 own [own] with capable := fun phase c => (.ok (phase ≠ .backup), c) }

/-- A deployment with this instance alone. -/
def Deployment.unsaved (own : Identifier) : Deployment Contents Unit where
  instances := fun _ => .ok [Instance.unsaved own]
  manifest := fun _ => .ok ""

theorem steady_kept (n : Nat) {own : Identifier} {ids : List Identifier}
    (hown : ∀ blob ∈ ids, blob.isNamed = false → blob = own) :
    (Instance.kept n own ids).Steady where
  capable := fun _ _ => rfl
  lists := fun _ _ => rfl
  own := by
    intro c ids' hids blob hblob
    have hlisted : (Instance.kept n own ids).listed c = .ok ids :=
      congrArg Except.ok (ids_kept n ids)
    obtain rfl : ids = ids' := Except.ok.inj (hlisted.symm.trans hids)
    exact hown blob hblob

theorem steady_unsaved (own : Identifier) : (Instance.unsaved own).Steady where
  capable := fun _ _ => rfl
  lists := fun _ _ => rfl
  own :=
    have hown : ∀ blob ∈ [own], blob.isNamed = false → blob = own :=
      fun _ hblob _ => List.mem_singleton.mp hblob
    (steady_kept 0 hown).own

/-- An instance with a blob of its own lists its own identifier. -/
theorem Instance.Steady.mem_of_ownsData {i : Instance F} (h : i.Steady) {f : F}
    {ids : List Identifier} (hlisted : i.listed f = .ok ids) (howns : i.ownsData f = true) :
    i.id ∈ ids ∧ i.id.isNamed = false := by
  unfold ownsData at howns
  rw [hlisted] at howns
  obtain ⟨blob, hblob, hnamed⟩ := List.any_eq_true.mp howns
  have hnamed : blob.isNamed = false := by simpa using hnamed
  obtain rfl := h.own f ids hlisted blob hblob hnamed
  exact ⟨hblob, hnamed⟩

namespace Workflow

/-- The instances that hold a blob of their own. -/
def dataOwners (f : F) (is : List (Instance F)) : List Identifier :=
  (is.filter (·.ownsData f)).map (·.id)

/-- Those of them that are capable of a backup. -/
def savedOwners (f : F) (is : List (Instance F)) : List Identifier :=
  (is.filter fun i => i.ownsData f && i.backsUp f).map (·.id)

/-- Those of them that are not. -/
def passedOver (f : F) (is : List (Instance F)) : List Identifier :=
  (is.filter fun i => i.ownsData f && !i.backsUp f).map (·.id)

theorem dataOwners_perm (f : F) (is : List (Instance F)) :
    (dataOwners f is).Perm (savedOwners f is ++ passedOver f is) := by
  -- The owners are told apart by whether they are capable of a backup.
  have hsplit := (List.filter_append_perm (·.backsUp f) (is.filter (·.ownsData f))).symm
  rw [List.filter_filter, List.filter_filter] at hsplit
  have hmap := hsplit.map (·.id)
  rw [List.map_append] at hmap
  simpa only [dataOwners, savedOwners, passedOver, Bool.and_comm] using hmap

/-! ### The answers in a history -/

/-- The answer is that of the instance at this position. -/
def Answered (f : F) (is : List (Instance F)) (e : Event) : Prop :=
  match e.call with
  | .asked .backup answer => ∃ i, is[e.member]? = some i ∧ answer = (i.capable .backup f).1
  | .listed answer => ∃ i, is[e.member]? = some i ∧ answer = i.listed f
  | _ => True

/-- The new calls all are of some kind. -/
def Adds (P : Event → Prop) (w w' : World (F × History)) : Prop :=
  ∃ events, w'.history = w.history ++ events ∧ ∀ e ∈ events, P e

theorem local_adds (P : Event → Prop) : Local (Adds (F := F) P) where
  refl := fun w => ⟨[], (List.append_nil _).symm, by simp⟩
  trans := by
    rintro w w' w'' ⟨events, hhistory, hall⟩ ⟨events', hhistory', hall'⟩
    refine ⟨events ++ events', ?_, ?_⟩
    · rw [hhistory', hhistory, List.append_assoc]
    · intro e he
      exact (List.mem_append.mp he).elim (hall e) (hall' e)
  disk := fun w _ => ⟨[], (List.append_nil _).symm, by simp⟩
  claim := fun w _ => ⟨[], (List.append_nil _).symm, by simp⟩

theorem adds_call {P : Event → Prop} {w w' : World (F × History)} {e : Event}
    (hhistory : w'.history = w.history ++ [e]) (he : P e) : Adds P w w' := by
  refine ⟨[e], hhistory, fun e' he' => ?_⟩
  rw [List.mem_singleton.mp he']
  exact he

section Answers

variable {f : F} {is : List (Instance F)} {n : Nat} {i : Instance F}

theorem steps_answered (hi : is[n]? = some i) (hsteady : i.Steady) :
    (i.inFleet.observed n).Steps (Adds (Answered f is)) where
  capable := by
    intro phase w
    refine adds_call rfl ?_
    cases phase with
    | backup => exact ⟨i, hi, hsteady.capable f w.fleet.1⟩
    | preBackupLock | postBackupUnlock | preRestoreLock | restore | postRestoreUnlock | cleanup =>
      exact trivial
  act := fun phase w => adds_call rfl trivial
  blobs := by
    intro w
    refine adds_call rfl ⟨i, hi, ?_⟩
    rw [← hsteady.lists f w.fleet.1]
    show ((i.blobs w.fleet.1).1.map (·.map Blob.inFleet)).map (·.map (·.id)) = _
    unfold Instance.listed
    cases (i.blobs w.fleet.1).1 with
    | error halt => rfl
    | ok bs =>
      simp only [Except.map, List.map_map]
      rfl

theorem reads_answered (b : Blob (World F)) (k : Nat) :
    (b.observed n k).Reads (Adds (Answered f is)) where
  size := fun _ => adds_call rfl trivial
  digests := fun _ => adds_call rfl trivial
  fetch := fun _ => adds_call rfl trivial

end Answers

section Backup

variable {d : Deployment F ε} {policy : Policy} {path : String} {start finish : Instant}
  {w : World F} {is : List (Instance F)} {manifest : String} {a : Artifact} {disk : Disk}
  {report : Report}

variable (policy finish) in
/-- All answers in a backup are those that the instances always give. -/
theorem history_answered (hsteady : ∀ i ∈ is, i.Steady) (hinstances : d.instances w.fleet = .ok is)
    (hmanifest : d.manifest w.fleet = .ok manifest)
    (hprepare : prepare path manifest start w.disk = (.ok a, disk)) :
    ∀ e ∈ backupHistory d.inFleet policy path start finish w, Answered w.fleet is e := by
  have hmember : ∀ i ∈ observedFrom 0 (is.map Instance.inFleet),
      i.Steps (Adds (Answered w.fleet is)) ∧
        ∀ w' bs, (i.blobs w').1 = .ok bs → ∀ b ∈ bs, b.Reads (Adds (Answered w.fleet is)) := by
    intro i hi
    obtain ⟨n, i', hi', rfl⟩ := mem_observedFrom hi
    rw [List.getElem?_map, Option.map_eq_some_iff] at hi'
    obtain ⟨i'', hi'', rfl⟩ := hi'
    rw [Nat.zero_add]
    refine ⟨steps_answered hi'' (hsteady i'' (List.mem_of_getElem? hi'')), ?_⟩
    intro w' bs hlisted b hb
    change (i''.inFleet.blobs w'.seen).1.map (observedBlobs n 0) = _ at hlisted
    cases hblobs : (i''.inFleet.blobs w'.seen).1 with
    | error halt =>
      rw [hblobs] at hlisted
      cases hlisted
    | ok bs' =>
      rw [hblobs] at hlisted
      cases hlisted
      obtain ⟨k, b', -, rfl⟩ := mem_observedBlobs hb
      exact reads_answered b' (0 + k)
  -- Every step of the run adds such calls or none.
  have hdriven := steps_drive (local_adds (Answered w.fleet is)).toKeeping policy backupPlan
    (fun i hi => (hmember i hi).1)
    (fun i hi => steps_backUp (local_adds _) a (hmember i hi).1 (hmember i hi).2)
    (World.mk disk [] (w.fleet, []))
  obtain ⟨events, hevents, hall⟩ := hdriven
  unfold backupHistory
  rw [backup_eq (observed_instances_ok (inFleet_instances hinstances)) hmanifest hprepare,
    history_finished]
  intro e he
  change e ∈ (drive policy backupPlan (backUp a) (observedFrom 0 (is.map Instance.inFleet))
    (World.mk disk [] (w.fleet, []))).2.history at he
  rw [hevents] at he
  exact hall e he

/-! ### What is recorded -/

/-- Blobs are listed in the phases in which they are moved. -/
theorem moves_of_listed {phase : Phase} {t : Turn} (hof : t.Of phase)
    {answer : Except Halt (List Identifier)} (hmem : .listed answer ∈ t.calls) :
    phase = .backup ∨ phase = .restore := by
  have hanswer := capable_of_called hof hmem
  unfold Turn.Of at hof
  rw [hanswer] at hof
  cases phase with
  | backup => exact .inl rfl
  | restore => exact .inr rfl
  | preBackupLock | postBackupUnlock | preRestoreLock | postRestoreUnlock | cleanup =>
    have hcalls : t.calls = [.acted _ t.outcome] := hof
    rw [hcalls] at hmem
    cases List.mem_singleton.mp hmem

/-- In the data phase of a completed backup, every instance is asked whether it is capable, and
    only those that are list their blobs. -/
theorem asked_of_completed (hinstances : d.instances w.fleet = .ok is)
    (hmanifest : d.manifest w.fleet = .ok manifest)
    (hprepare : prepare path manifest start w.disk = (.ok a, disk))
    (hcompleted : (backup d.inFleet policy path start finish w).1 = .ok report) (n : Nat) :
    (n < is.length → ∃ able,
      ⟨n, .asked .backup (.ok able)⟩ ∈ backupHistory d.inFleet policy path start finish w) ∧
    ∀ answer, ⟨n, .listed answer⟩ ∈ backupHistory d.inFleet policy path start finish w →
      ⟨n, .asked .backup (.ok true)⟩ ∈ backupHistory d.inFleet policy path start finish w := by
  obtain ⟨k, turns, hof, hhistory, hturns, hnofail⟩ :=
    walk_of_completed hinstances hmanifest hprepare hcompleted
  have hall := hof.data turns hturns
  rw [hhistory, Walk.history, Walk.moved, hturns, Option.getD_some]
  have hasked {n : Nat} {t : Turn} (ht : turns[n]? = some t) :
      ⟨n, .asked .backup t.answer⟩ ∈ Turn.historyOf backupPlan.data 0 turns :=
    Turn.mem_historyOf.mpr ⟨n, t, ht, (Nat.zero_add n).symm, .inl rfl⟩
  refine ⟨?_, ?_⟩
  · intro hlt
    rw [← hall.1] at hlt
    have ht := List.getElem?_eq_getElem hlt
    have hturn := hall.2 _ (List.mem_of_getElem? ht)
    -- Had there been no answer, the turn would have failed.
    obtain ⟨able, hanswer⟩ : ∃ able, turns[n].answer = .ok able := by
      cases hanswer : turns[n].answer with
      | ok able => exact ⟨able, rfl⟩
      | error halt =>
        unfold Turn.Of at hturn
        rw [hanswer] at hturn
        exact absurd ⟨halt, hturn.2⟩ (hnofail _ (List.mem_of_getElem? ht))
    refine ⟨able, ?_⟩
    rw [← hanswer]
    exact List.mem_append_left _ (List.mem_append_left _ (List.mem_append_right _ (hasked ht)))
  · intro answer hlisted
    -- A list can only come from the data phase, where the instance was asked before.
    have hother {phase : Phase} {turns : List Turn} (hphase : phase ≠ .backup ∧ phase ≠ .restore)
        (hall : Turn.All phase is.length turns) :
        ⟨n, .listed answer⟩ ∉ Turn.historyOf phase 0 turns := by
      intro hmem
      obtain ⟨j, t, ht, -, hcall | hcall⟩ := Turn.mem_historyOf.mp hmem
      · cases hcall
      · exact (moves_of_listed (hall.2 t (List.mem_of_getElem? ht)) hcall).elim hphase.1 hphase.2
    have hlock := hother (by decide) hof.lock
    have hunlock := hother (by decide) hof.unlock
    have hcleanup := hother (by decide) hof.cleanup
    simp only [List.mem_append, hlock, hunlock, hcleanup, false_or, or_false] at hlisted
    obtain ⟨j, t, ht, hmember, hcall | hcall⟩ := Turn.mem_historyOf.mp hlisted
    · cases hcall
    · obtain rfl : n = j := hmember.trans (Nat.zero_add j)
      rw [← capable_of_called (hall.2 t (List.mem_of_getElem? ht)) hcall]
      exact List.mem_append_left _ (List.mem_append_left _ (List.mem_append_right _ (hasked ht)))

/-- A completed backup of steady instances has recorded, once, each one that holds a blob of its
    own and is capable of a backup, and no other one. -/
theorem recorded_of_completed (hsteady : ∀ i ∈ is, i.Steady)
    (hinstances : d.instances w.fleet = .ok is) (hmanifest : d.manifest w.fleet = .ok manifest)
    (hprepare : prepare path manifest start w.disk = (.ok a, disk)) (hlinks : a.HoldsNoLink disk)
    (hcompleted : (backup d.inFleet policy path start finish w).1 = .ok report) :
    ∃ m, Backed a m (backup d.inFleet policy path start finish w).2.disk ∧
      m.instanceIdentifiers.Perm (savedOwners w.fleet is) := by
  obtain ⟨m, n, hbacked, htraced⟩ := traced_backup hinstances hmanifest hprepare hlinks
  have hclean : ∃ report, (backup d.inFleet policy path start finish w).1 = .ok report :=
    ⟨report, hcompleted⟩
  have hanswers := history_answered policy finish hsteady hinstances hmanifest hprepare
  have hasked := asked_of_completed hinstances hmanifest hprepare hcompleted
  -- What an instance that is saved holds was listed, in front of the end of the run.
  have hsaved {n' : Nat} {i : Instance F} (hi : is[n']? = some i)
      (howns : i.ownsData w.fleet = true) (hbacks : i.backsUp w.fleet = true) :
      ∃ k', History.Holds (backupHistory d.inFleet policy path start finish w) n' k' i.id ∧
        i.id.isNamed = false ∧ Earlier n' k' n 0 := by
    obtain ⟨able, hable⟩ := (hasked n').1 (List.getElem?_eq_some_iff.mp hi).1
    obtain ⟨i', hi', hanswer⟩ := hanswers _ hable
    obtain rfl : i = i' := by simpa [hi] using hi'
    have htrue : able = true := by
      unfold Instance.backsUp at hbacks
      rw [← hanswer] at hbacks
      exact hbacks
    rw [htrue] at hable
    obtain ⟨ids, hlisted⟩ := listed_of_asked hinstances hmanifest hprepare hcompleted hable
    obtain ⟨i', hi', hids⟩ := hanswers _ hlisted
    obtain rfl : i = i' := by simpa [hi] using hi'
    obtain ⟨hmem, hnamed⟩ :=
      (hsteady i (List.mem_of_getElem? hi)).mem_of_ownsData hids.symm howns
    obtain ⟨k', hlt, hget⟩ := List.getElem_of_mem hmem
    refine ⟨k', ⟨ids, hlisted, by rw [List.getElem?_eq_getElem hlt, hget]⟩, hnamed, ?_⟩
    rcases htraced.listings n' ids hlisted with hfront | ⟨-, hnone⟩
    · exact .inl hfront
    · cases hnone
  refine ⟨m, hbacked, (List.perm_ext_iff_of_nodup
    (Metadata.nodup_instanceIdentifiers hbacked.once) ?_).mpr fun id => ?_⟩
  · -- Two instances with one identifier would have stored one blob twice.
    unfold savedOwners
    rw [List.Nodup, List.pairwise_map, List.pairwise_filter, List.pairwise_iff_getElem]
    intro n₁ n₂ hlt₁ hlt₂ hlt h₁ h₂ hsame
    simp only [Bool.and_eq_true] at h₁ h₂
    obtain ⟨k₁, hholds₁, hnamed, hfront₁⟩ :=
      hsaved (List.getElem?_eq_getElem hlt₁) h₁.1 h₁.2
    obtain ⟨k₂, hholds₂, -, hfront₂⟩ := hsaved (List.getElem?_eq_getElem hlt₂) h₂.1 h₂.2
    rw [← hsame] at hholds₂
    have hone := htraced.single hclean _ _ _ _ _ hholds₁ hholds₂ hnamed hfront₁ hfront₂
    omega
  · rw [Metadata.mem_instanceIdentifiers hbacked.proper]
    unfold savedOwners
    simp only [List.mem_map, List.mem_filter, Bool.and_eq_true]
    constructor
    · rintro ⟨hrecorded, hnamed⟩
      obtain ⟨n', k', ⟨ids, hlisted, hid⟩, -⟩ := htraced.known id hrecorded
      obtain ⟨i, hi, hids⟩ := hanswers _ hlisted
      obtain ⟨i', hi', hable⟩ := hanswers _ ((hasked n').2 _ hlisted)
      obtain rfl : i = i' := by simpa [hi] using hi'
      have hmem := List.mem_of_getElem? hid
      obtain rfl := (hsteady i (List.mem_of_getElem? hi)).own _ ids hids.symm id hmem hnamed
      refine ⟨i, ⟨List.mem_of_getElem? hi, ?_, ?_⟩, rfl⟩
      · unfold Instance.ownsData
        rw [← hids]
        exact List.any_eq_true.mpr ⟨i.id, hmem, by simpa using hnamed⟩
      · unfold Instance.backsUp
        rw [← hable]
    · rintro ⟨i, ⟨hi, howns, hbacks⟩, rfl⟩
      obtain ⟨n', hlt, rfl⟩ := List.getElem_of_mem hi
      obtain ⟨k', hholds, hnamed, hfront⟩ :=
        hsaved (List.getElem?_eq_getElem hlt) howns hbacks
      exact ⟨htraced.covered hclean n' k' _ hholds hfront, hnamed⟩

end Backup

/-! ### What is compared -/

/-- An identifier is left over as often as it is not struck out. -/
theorem count_leftOver (id : Identifier) (left right : List Identifier) :
    (leftOver left right).count id = left.count id - right.count id := by
  induction left generalizing right with
  | nil => simp [leftOver]
  | cons other rest ih =>
    unfold leftOver
    by_cases hmem : other ∈ right
    · rw [if_pos (List.contains_iff_mem.mpr hmem), ih, List.count_cons]
      by_cases hsame : other = id
      · subst hsame
        have hpos := List.count_pos_iff.mpr hmem
        rw [List.count_erase_self, beq_self_eq_true, if_pos rfl]
        omega
      · rw [List.count_erase_of_ne (Ne.symm hsame), beq_false_of_ne hsame]
        simp
    · rw [if_neg fun hc => hmem (List.contains_iff_mem.mp hc), List.count_cons, List.count_cons, ih]
      by_cases hsame : other = id
      · subst hsame
        rw [List.count_eq_zero_of_not_mem hmem]
        omega
      · rw [beq_false_of_ne hsame]
        simp

/-- When one list is another one and some more, what is left over are these. -/
theorem difference_of_perm {left right more : List Identifier} (h : left.Perm (right ++ more)) :
    difference left right = Identifier.sort more ∧ difference right left = [] := by
  have hcount (id : Identifier) : left.count id = right.count id + more.count id := by
    rw [h.count_eq, List.count_append]
  constructor
  · refine (Identifier.sort_eq_sort_iff _ _).mpr (List.perm_iff_count.mpr fun id => ?_)
    rw [count_leftOver, hcount]
    omega
  · have hnone : (leftOver right left).Perm [] := by
      refine List.perm_iff_count.mpr fun id => ?_
      rw [count_leftOver, hcount, List.count_nil]
      omega
    rw [difference, hnone.eq_nil, Identifier.sort, List.mergeSort_nil]

theorem inspectOne_steady {i : Instance F} (hi : i.Steady) (f : F) {w : World F} {holding : Holding}
    (h : (inspectOne i.inFleet w).1 = .ok holding) :
    holding.id = i.id ∧ holding.holdsOwnData = i.ownsData f := by
  rw [hi.ownsData_eq w.fleet f]
  have hblobs : (i.inFleet.blobs w).1 = (i.blobs w.fleet).1.map (·.map Blob.inFleet) := rfl
  rw [inspectOne_eq] at h
  cases hlisted : (i.blobs w.fleet).1 with
  | error halt =>
    rw [hlisted] at hblobs
    rw [bind_of_error (Prod.ext hblobs rfl)] at h
    cases h
  | ok bs =>
    rw [hlisted] at hblobs
    rw [bind_of_ok (Prod.ext hblobs rfl)] at h
    -- What counts is which blobs are listed, and these do not change.
    have howns : i.ownsData w.fleet = (bs.map Blob.inFleet).any (! ·.id.isNamed) := by
      unfold Instance.ownsData Instance.listed
      rw [hlisted, List.any_map]
      simp only [Except.map, List.any_map]
      rfl
    rw [howns]
    rw [Act.bind_apply] at h
    split at h
    · cases h
      exact ⟨rfl, rfl⟩
    · cases h

/-- When all steady instances answer, those that hold a blob of their own are found. -/
theorem inspectAll_steady (is : List (Instance F)) (hsteady : ∀ i ∈ is, i.Steady) (f : F)
    (number : Nat) (w : World F) (h : (inspectAll number (is.map Instance.inFleet) w).1.2 = []) :
    ((inspectAll number (is.map Instance.inFleet) w).1.1.filter (·.holdsOwnData)).map (·.id) =
      dataOwners f is := by
  induction is generalizing number w with
  | nil => rfl
  | cons i rest ih =>
    have hrest := ih (fun i' hi' => hsteady i' (List.mem_cons_of_mem _ hi')) (number + 1)
      (inspectOne i.inFleet w).2
    rw [List.map_cons, inspectAll_cons] at h ⊢
    simp only at h ⊢
    cases houtcome : (inspectOne i.inFleet w).1 with
    | error halt =>
      rw [houtcome] at h
      cases h
    | ok holding =>
      rw [houtcome] at h
      obtain ⟨hid, howns⟩ := inspectOne_steady (hsteady i List.mem_cons_self) f houtcome
      have hothers := hrest h
      unfold dataOwners at hothers ⊢
      rw [List.filter_cons, List.filter_cons, howns]
      split
      · rw [List.map_cons, List.map_cons, hid, hothers]
      · exact hothers

/-- Sorted lists are compared, so that neither order matters. -/
theorem checkCompatibility_eq {a : Artifact} {m : Metadata} {disk : Disk}
    (hmetadata : a.metadata disk = .ok m) {holdings : List Holding} {present : List Identifier}
    (hpresent : (holdings.filter (·.holdsOwnData)).map (·.id) = present) :
    (m.instanceIdentifiers.Perm present → checkCompatibility (ε := ε) a holdings disk = .ok ()) ∧
    (¬ m.instanceIdentifiers.Perm present → checkCompatibility (ε := ε) a holdings disk =
      .error (.compatibility (difference m.instanceIdentifiers present)
        (difference present m.instanceIdentifiers))) := by
  unfold checkCompatibility agreesWith instanceIdentifiers
  simp only [hmetadata, hpresent, Except.map]
  refine ⟨fun hperm => ?_, fun hperm => ?_⟩
  · simp only [(Identifier.sort_eq_sort_iff _ _).mpr hperm, decide_true]
  · simp only [mt (Identifier.sort_eq_sort_iff _ _).mp hperm, decide_false]

theorem notRestorable_of_error {holdings : List Holding} {e : Error ε}
    (h : checkRestorable holdings = .error e) : ∃ stuck, e = .notRestorable stuck := by
  unfold checkRestorable at h
  simp only at h
  split at h
  · cases h
  · cases h
    exact ⟨_, rfl⟩

section Restore

variable {d : Deployment F ε} {policy : Policy} {path : String} {w : World F}
  {is : List (Instance F)} {a : Artifact} {m : Metadata}

/-- All instances of a restore answer. -/
def AllAnswer (is : List (Instance F)) (w : World F) : Prop :=
  (inspectAll 1 (is.map Instance.inFleet) w).1.2 = []

/-- A restore is refused for what is recorded exactly when all instances answer, and the recorded
    ones are not those that hold a blob of their own. -/
theorem compatibility_iff (hsteady : ∀ i ∈ is, i.Steady)
    (hinstances : d.instances w.fleet = .ok is) (hopen : openAt w.disk path = .ok a)
    (hbacked : Backed a m w.disk) (f : F) (missing unexpected : List Identifier) :
    (restore d.inFleet policy path w).1 = .error (.compatibility missing unexpected) ↔
      AllAnswer is w ∧ ¬ m.instanceIdentifiers.Perm (dataOwners f is) ∧
        missing = difference m.instanceIdentifiers (dataOwners f is) ∧
        unexpected = difference (dataOwners f is) m.instanceIdentifiers := by
  have hdisk := (beside_inspectAll is 1 w).disk
  have hmetadata := metadata_of_hasRecord hbacked.sound hbacked.record
  rw [restore_eq (inFleet_instances hinstances) hopen, inspect_eq]
  simp only [hdisk]
  by_cases hanswer : AllAnswer is w
  · obtain ⟨hfits, hdiffers⟩ := checkCompatibility_eq (ε := ε) hmetadata
      (inspectAll_steady is hsteady f 1 w hanswer)
    unfold AllAnswer at hanswer ⊢
    simp only [hanswer, List.isEmpty_nil, if_true, true_and]
    by_cases hperm : m.instanceIdentifiers.Perm (dataOwners f is)
    · -- What comes behind this check has other reasons to fail.
      rw [hfits hperm]
      refine iff_of_false (fun hc => ?_) (fun hc => hc.1 hperm)
      rcases hstuck : checkRestorable (ε := ε)
        (inspectAll 1 (is.map Instance.inFleet) w).1.1 with e | ⟨⟩
      · rw [hstuck] at hc
        obtain ⟨stuck, rfl⟩ := notRestorable_of_error hstuck
        cases hc
      · rw [hstuck] at hc
        obtain ⟨report, hok | hfailed⟩ := reports_finish (ε := ε)
          (drive policy restorePlan (putBack a) (is.map Instance.inFleet)
            (inspectAll 1 (is.map Instance.inFleet) w).2).1 path
        · rw [hok] at hc
          cases hc
        · rw [hfailed] at hc
          cases hc
    · rw [hdiffers hperm]
      simp only [Except.error.injEq, Error.compatibility.injEq, hperm, not_false_eq_true, true_and,
        eq_comm]
  · -- Failures to answer are reported first, and with another error.
    refine iff_of_false (fun hc => ?_) (fun hc => hanswer hc.1)
    have hsome : (inspectAll 1 (is.map Instance.inFleet) w).1.2.isEmpty = false :=
      List.isEmpty_eq_false_iff.mpr hanswer
    rw [hsome] at hc
    cases hc

end Restore

section Both

variable {d : Deployment F ε} {policy policy' : Policy} {path : String} {start finish : Instant}
  {w w' : World F} {is : List (Instance F)} {manifest : String} {a : Artifact} {disk : Disk}
  {report : Report}

/-- After a completed backup of steady instances, a restore of the same instances from its artifact
    is refused for what is recorded exactly when all of them answer, and some of them hold a blob
    of their own and are not capable of a backup. Nothing is missing then, and these instances are
    unexpected. -/
theorem restore_of_own_backup (hsteady : ∀ i ∈ is, i.Steady)
    (hinstances : d.instances w.fleet = .ok is) (hmanifest : d.manifest w.fleet = .ok manifest)
    (hprepare : prepare path manifest start w.disk = (.ok a, disk)) (hlinks : a.HoldsNoLink disk)
    (hcompleted : (backup d.inFleet policy path start finish w).1 = .ok report)
    (hdisk : w'.disk = (backup d.inFleet policy path start finish w).2.disk)
    (hinstances' : d.instances w'.fleet = .ok is) (missing unexpected : List Identifier) :
    (restore d.inFleet policy' path w').1 = .error (.compatibility missing unexpected) ↔
      AllAnswer is w' ∧ passedOver w.fleet is ≠ [] ∧
        missing = [] ∧ unexpected = Identifier.sort (passedOver w.fleet is) := by
  obtain ⟨m, hbacked, hrecorded⟩ :=
    recorded_of_completed hsteady hinstances hmanifest hprepare hlinks hcompleted
  have hopen := hbacked.opens
  rw [path_of_prepare hprepare] at hopen
  rw [← hdisk] at hbacked hopen
  -- The owners are the recorded ones and those that were passed over.
  have hsplit : (dataOwners w.fleet is).Perm (m.instanceIdentifiers ++ passedOver w.fleet is) :=
    (dataOwners_perm w.fleet is).trans (hrecorded.symm.append_right _)
  obtain ⟨hunexpected, hmissing⟩ := difference_of_perm hsplit
  have hsame : m.instanceIdentifiers.Perm (dataOwners w.fleet is) ↔
      passedOver w.fleet is = [] := by
    constructor
    · intro hperm
      have hlength := (hperm.trans hsplit).length_eq
      rw [List.length_append] at hlength
      exact List.length_eq_zero_iff.mp (by omega)
    · intro hnone
      rw [hnone, List.append_nil] at hsplit
      exact hsplit.symm
  rw [compatibility_iff hsteady hinstances' hopen hbacked w.fleet, hunexpected, hmissing, hsame]

/-- A restore into a deployment that was backed up completely is not refused. -/
theorem restore_of_own_backup_kept :
    let d := Deployment.kept sharers
    let w : World Contents := ⟨Disk.fresh, [], archivedPlaces⟩
    let run := backup d.inFleet .failFast "x" ⟨0, false⟩ ⟨1, false⟩ w
    (∃ report, run.1 = .ok report) ∧ ∀ missing unexpected,
      (restore d.inFleet .failFast "x" run.2).1 ≠ .error (.compatibility missing unexpected) := by
  intro d w run
  obtain ⟨a, disk, report, hprepare, hlinks, hcompleted⟩ :=
    backup_kept distinct_sharers storable_sharers .failFast ⟨0, false⟩ ⟨1, false⟩
  refine ⟨⟨report, hcompleted⟩, fun missing unexpected hrefused => ?_⟩
  have hsteady : ∀ i ∈ sharers.mapIdx fun n member => Instance.kept n member.1 member.2,
      i.Steady := by
    intro i hi
    obtain ⟨n, hn, rfl⟩ := List.mem_mapIdx.mp hi
    exact steady_kept n (distinct_sharers.own _ (List.getElem_mem hn))
  have hreason := (restore_of_own_backup (d := d) (w := w) hsteady rfl rfl hprepare hlinks
    hcompleted (rfl : run.2.disk = run.2.disk) rfl missing unexpected).mp hrefused
  -- Both instances are capable of a backup.
  exact hreason.2.1 rfl

/-- A deployment is backed up, and a restore into it is refused: its only instance holds a blob of
    its own and is not capable of a backup. -/
theorem restore_of_unsaved :
    let own := Identifier.indexed "a" "0"
    let d := Deployment.unsaved own
    let w : World Contents := ⟨Disk.fresh, [], fun _ _ => []⟩
    let run := backup d.inFleet .failFast "x" ⟨0, false⟩ ⟨1, false⟩ w
    (∃ report, run.1 = .ok report ∧ report.state = .completed) ∧
      (restore d.inFleet .failFast "x" run.2).1 = .error (.compatibility [] [own]) := by
  intro own d w run
  obtain ⟨a, disk, hprepare, hnew, -⟩ := prepare_fresh "" ⟨0, false⟩
  have hlinks := holdsNoLink_of_vacant hprepare hnew
  obtain ⟨hsound, hrecord, -⟩ := prepare_spec hprepare hlinks
  obtain ⟨disk', hfinish, -⟩ := addFinishTime_stores hsound hrecord ⟨1, false⟩
  have hsteady : ∀ i ∈ [Instance.unsaved own], i.Steady := by
    intro i hi
    rw [List.mem_singleton.mp hi]
    exact steady_unsaved own
  -- No instance takes part in the data phase, so nothing fails.
  have hrun : run = (.ok ⟨.completed, "x", [], [], [.notStarted, .locking, .backingUp, .unlocking,
      .cleanup, .completed]⟩, ⟨disk', [], w.fleet⟩) := by
    have hdrive : drive .failFast backupPlan (backUp a) [(Instance.unsaved own).inFleet]
        { w with disk := disk, claimed := [] } =
        (⟨[.notStarted, .locking, .backingUp, .unlocking, .cleanup], []⟩,
          ⟨disk, [], w.fleet⟩) := rfl
    have hinstances : d.inFleet.instances w = .ok [(Instance.unsaved own).inFleet] := rfl
    show backup d.inFleet .failFast "x" ⟨0, false⟩ ⟨1, false⟩ w = _
    rw [backup_eq hinstances rfl hprepare, hdrive]
    unfold finished
    simp only [hfinish]
    rfl
  have hcompleted := congrArg Prod.fst hrun
  obtain ⟨m, hbacked, hrecorded⟩ := recorded_of_completed (d := d) (w := w) hsteady rfl rfl
    hprepare hlinks hcompleted
  refine ⟨⟨_, hcompleted, rfl⟩, ?_⟩
  have hopen := hbacked.opens
  rw [path_of_prepare hprepare] at hopen
  have hnone : m.instanceIdentifiers = [] := List.perm_nil.mp hrecorded
  have howner : (dataOwners w.fleet [Instance.unsaved own]).Perm ([] ++ [own]) :=
    List.Perm.refl [own]
  obtain ⟨hunexpected, hmissing⟩ := difference_of_perm howner
  refine (compatibility_iff (d := d) (w := run.2) hsteady rfl hopen hbacked w.fleet [] [own]).mpr
    ⟨rfl, ?_, ?_, ?_⟩
  · rw [hnone]
    exact fun hperm => by cases List.nil_perm.mp hperm
  · rw [hnone, hmissing]
  · rw [hnone, hunexpected, Identifier.sort, List.mergeSort_singleton]

end Both

end Workflow

end DeploymentBackup
