import DeploymentBackup.Proofs.Workflow.Equations

namespace DeploymentBackup

/-!
# The history of a run

What a workflow calls on its instances and blobs can be written down while it runs: each
member of a deployment is replaced by one that does the same and notes every call with its
answer. Noting changes neither the outcome of a run nor what it does to the disk and the
fleet, so the notes are the history of the run itself.

* `Call`, `Event`, `History` — what is noted.
* `Instance.observed`, `Deployment.observed` — members that note their calls.
* `backupHistory`, `restoreHistory` — the history of a run.
* `backup_observed`, `restore_observed` — noting changes nothing.
-/

/-- A call of an instance, or of the blob at a position in its list, with the answer. -/
inductive Call
  /-- Whether the instance is capable of a phase. -/
  | asked (phase : Phase) (answer : Except Halt Bool)
  /-- The action of the instance in a phase. -/
  | acted (phase : Phase) (outcome : Except Halt Unit)
  /-- The blobs of the instance. -/
  | listed (answer : Except Halt (List Identifier))
  | sized (blob : Nat) (answer : Except Halt String)
  | digested (blob : Nat) (answer : Except Halt Digests)
  | fetched (blob : Nat) (bytes : Text.Bytes) (outcome : Except Halt Unit)
  | replaced (blob : Nat) (source : Source) (outcome : Except Halt Unit)

/-- A call of the instance at a position in the deployment. -/
structure Event where
  member : Nat
  call : Call

/-- Calls in the order in which they were made. -/
abbrev History := List Event

variable {F ε : Type} {α β γ δ : Type}

/-! ### Members that note their calls -/

namespace World

/-- The world without the notes. -/
def seen (w : World (F × History)) : World F :=
  ⟨w.disk, w.claimed, w.fleet.1⟩

/-- The notes so far. -/
def history (w : World (F × History)) : History :=
  w.fleet.2

/-- The world with these notes. -/
def noting (w : World F) (history : History) : World (F × History) :=
  ⟨w.disk, w.claimed, (w.fleet, history)⟩

@[simp] theorem seen_noting (w : World F) (h : History) : (w.noting h).seen = w := rfl

@[simp] theorem history_noting (w : World F) (h : History) : (w.noting h).history = h := rfl

@[simp] theorem disk_noting (w : World F) (h : History) : (w.noting h).disk = w.disk := rfl

@[simp] theorem disk_seen (w : World (F × History)) : w.seen.disk = w.disk := rfl

end World

/-- An action that is noted with its outcome. -/
def Act.observed (x : Act (World F) α) (event : Except Halt α → Event) :
    Act (World (F × History)) α :=
  fun w => ((x w.seen).1, (x w.seen).2.noting (w.history ++ [event (x w.seen).1]))

/-- The blob at a position, of the instance at a position. -/
def Blob.observed (n k : Nat) (b : Blob (World F)) : Blob (World (F × History)) where
  id := b.id
  size := b.size.observed fun answer => ⟨n, .sized k answer⟩
  digests := b.digests.observed fun answer => ⟨n, .digested k answer⟩
  fetch := fun sink w =>
    ((b.fetch sink w.seen).1, (b.fetch sink w.seen).2.noting
      (w.history ++ [⟨n, .fetched k (b.fetch sink w.seen).1.1 (b.fetch sink w.seen).1.2⟩]))
  replace := fun source =>
    (b.replace source).observed fun outcome => ⟨n, .replaced k source outcome⟩

/-- The blobs of the instance at a position, from position `k` on. -/
def observedBlobs (n : Nat) : (k : Nat) → List (Blob (World F)) → List (Blob (World (F × History)))
  | _, [] => []
  | k, b :: rest => b.observed n k :: observedBlobs n (k + 1) rest

/-- The instance at a position. -/
def Instance.observed (n : Nat) (i : Instance (World F)) : Instance (World (F × History)) where
  id := i.id
  capable := fun phase => (i.capable phase).observed fun answer => ⟨n, .asked phase answer⟩
  act := fun phase => (i.act phase).observed fun outcome => ⟨n, .acted phase outcome⟩
  blobs := fun w =>
    ((i.blobs w.seen).1.map (observedBlobs n 0), (i.blobs w.seen).2.noting
      (w.history ++ [⟨n, .listed ((i.blobs w.seen).1.map fun blobs => blobs.map (·.id))⟩]))

/-- Instances, from position `n` on. -/
def observedFrom : (n : Nat) → List (Instance (World F)) → List (Instance (World (F × History)))
  | _, [] => []
  | n, i :: rest => i.observed n :: observedFrom (n + 1) rest

/-- A deployment whose members note their calls. -/
def Deployment.observed (d : Deployment (World F) ε) : Deployment (World (F × History)) ε where
  instances := fun w => (d.instances w.seen).map (observedFrom 0)
  manifest := fun w => d.manifest w.seen

namespace Workflow

/-- What a backup calls on the members of a deployment. -/
def backupHistory (d : Deployment (World F) ε) (policy : Policy) (path : String)
    (start finish : Instant) (w : World F) : History :=
  (backup d.observed policy path start finish (w.noting [])).2.history

/-- What a restore calls on the members of a deployment. -/
def restoreHistory (d : Deployment (World F) ε) (policy : Policy) (path : String)
    (w : World F) : History :=
  (restore d.observed policy path (w.noting [])).2.history

end Workflow

/-! ### Noting changes nothing -/

/-- An action with notes does what the one without them does. -/
def Act.Mirrors (f : α → β) (y : Act (World (F × History)) β) (x : Act (World F) α) : Prop :=
  ∀ w, (y w).1 = (x w.seen).1.map f ∧ (y w).2.seen = (x w.seen).2

namespace Act

theorem map_id (r : Except Halt α) : r.map id = r := by
  cases r <;> rfl

theorem mirrors_observed (x : Act (World F) α) (event : Except Halt α → Event) :
    Mirrors id (x.observed event) x := by
  intro w
  exact ⟨(map_id _).symm, rfl⟩

theorem mirrors_pure (f : α → β) (a : α) :
    Mirrors f (Pure.pure (f a) : Act (World (F × History)) β) (Pure.pure a) := by
  intro w
  exact ⟨rfl, rfl⟩

theorem mirrors_fail (f : α → β) (cause : Instance.Fault) :
    Mirrors f (Act.fail cause : Act (World (F × History)) β) (Act.fail cause) := by
  intro w
  exact ⟨rfl, rfl⟩

theorem Mirrors.bind {f : α → β} {g : γ → δ} {y : Act (World (F × History)) β}
    {x : Act (World F) α} (h : Mirrors f y x) {y' : β → Act (World (F × History)) δ}
    {x' : α → Act (World F) γ} (h' : ∀ a, Mirrors g (y' (f a)) (x' a)) :
    Mirrors g (y >>= y') (x >>= x') := by
  intro w
  obtain ⟨hvalue, hseen⟩ := h w
  rw [bind_apply, bind_apply]
  cases hx : x w.seen with
  | mk result after =>
    cases hy : y w with
    | mk result' after' =>
      rw [hx] at hvalue hseen
      rw [hy] at hvalue hseen
      cases result with
      | error halt =>
        obtain rfl : result' = .error halt := hvalue
        exact ⟨rfl, hseen⟩
      | ok a =>
        obtain rfl : result' = .ok (f a) := hvalue
        obtain rfl : after'.seen = after := hseen
        exact h' a after'

theorem Mirrors.attempt {y : Act (World (F × History)) α} {x : Act (World F) α}
    (h : Mirrors id y x) : Mirrors id y.attempt x.attempt := by
  intro w
  obtain ⟨hvalue, hseen⟩ := h w
  rw [map_id] at hvalue
  rw [Act.attempt, Act.attempt, map_id]
  cases hx : x w.seen with
  | mk result after =>
    cases hy : y w with
    | mk result' after' =>
      rw [hx] at hvalue hseen
      rw [hy] at hvalue hseen
      obtain rfl : result' = result := hvalue
      rcases result' with (cause | payload) | a <;> exact ⟨rfl, hseen⟩

/-- Both actions take the same branch. -/
theorem Mirrors.ite {f : α → β} {y₁ y₂ : Act (World (F × History)) β} {x₁ x₂ : Act (World F) α}
    {c : Prop} [Decidable c] (h₁ : Mirrors f y₁ x₁) (h₂ : Mirrors f y₂ x₂) :
    Mirrors f (if c then y₁ else y₂) (if c then x₁ else x₂) := by
  split
  · exact h₁
  · exact h₂

end Act

/-- Every noted blob stands for a blob of the instance, at its position. -/
theorem mem_observedBlobs {n k : Nat} {bs : List (Blob (World F))}
    {b : Blob (World (F × History))} (h : b ∈ observedBlobs n k bs) :
    ∃ j, ∃ b' : Blob (World F), bs[j]? = some b' ∧ b = b'.observed n (k + j) := by
  induction bs generalizing k with
  | nil => cases h
  | cons b' rest ih =>
    rcases List.mem_cons.mp h with rfl | h
    · exact ⟨0, b', rfl, rfl⟩
    · obtain ⟨j, b'', hb, rfl⟩ := ih h
      refine ⟨j + 1, b'', hb, ?_⟩
      rw [Nat.add_assoc, Nat.add_comm 1 j]

/-- Every noted instance stands for an instance, at its position. -/
theorem mem_observedFrom {n : Nat} {is : List (Instance (World F))}
    {i : Instance (World (F × History))} (h : i ∈ observedFrom n is) :
    ∃ j, ∃ i' : Instance (World F), is[j]? = some i' ∧ i = i'.observed (n + j) := by
  induction is generalizing n with
  | nil => cases h
  | cons i' rest ih =>
    rcases List.mem_cons.mp h with rfl | h
    · exact ⟨0, i', rfl, rfl⟩
    · obtain ⟨j, i'', hi, rfl⟩ := ih h
      refine ⟨j + 1, i'', hi, ?_⟩
      rw [Nat.add_assoc, Nat.add_comm 1 j]

namespace Workflow

open Act (Mirrors)

/-! #### Members -/

theorem mirrors_size (n k : Nat) (b : Blob (World F)) :
    Mirrors id (b.observed n k).size b.size :=
  Act.mirrors_observed _ _

theorem mirrors_digests (n k : Nat) (b : Blob (World F)) :
    Mirrors id (b.observed n k).digests b.digests :=
  Act.mirrors_observed _ _

theorem mirrors_replace (n k : Nat) (b : Blob (World F)) (source : Source) :
    Mirrors id ((b.observed n k).replace source) (b.replace source) :=
  Act.mirrors_observed _ _

theorem mirrors_capable (n : Nat) (i : Instance (World F)) (phase : Phase) :
    Mirrors id ((i.observed n).capable phase) (i.capable phase) :=
  Act.mirrors_observed _ _

theorem mirrors_act (n : Nat) (i : Instance (World F)) (phase : Phase) :
    Mirrors id ((i.observed n).act phase) (i.act phase) :=
  Act.mirrors_observed _ _

theorem mirrors_blobs (n : Nat) (i : Instance (World F)) :
    Mirrors (observedBlobs n 0) (i.observed n).blobs i.blobs := by
  intro w
  exact ⟨rfl, rfl⟩

theorem isEmpty_observedBlobs (n k : Nat) (bs : List (Blob (World F))) :
    (observedBlobs n k bs).isEmpty = bs.isEmpty := by
  cases bs <;> rfl

theorem any_observedBlobs (n k : Nat) (bs : List (Blob (World F))) (p : Identifier → Bool) :
    (observedBlobs n k bs).any (fun b => p b.id) = bs.any fun b => p b.id := by
  induction bs generalizing k with
  | nil => rfl
  | cons b rest ih =>
    rw [observedBlobs, List.any_cons, List.any_cons, ih]
    rfl

/-! #### The data phases -/

theorem mirrors_inspectDisk (f : Disk → Except Artifact.Fault α) :
    Mirrors id (inspectDisk (F := F × History) f) (inspectDisk f) := by
  intro w
  rw [Act.map_id, inspectDisk_eq, inspectDisk_eq]
  exact ⟨rfl, rfl⟩

theorem mirrors_changeDisk (f : Disk → Except Artifact.Fault (α × Disk)) :
    Mirrors id (changeDisk (F := F × History) f) (changeDisk f) := by
  intro w
  simp only [Act.map_id, changeDisk, World.disk_seen]
  cases f w.disk <;> exact ⟨rfl, rfl⟩

theorem mirrors_store (n k : Nat) (b : Blob (World F)) (file : Disk.WriteHandle) :
    Mirrors id (store (b.observed n k) file) (store b file) := by
  intro w
  exact ⟨(Act.map_id _).symm, rfl⟩

theorem mirrors_claim (shared : Identifier) :
    Mirrors id (claim (F := F × History) shared) (claim shared) := by
  intro w
  have hclaimed : w.seen.claimed = w.claimed := rfl
  unfold claim
  rw [hclaimed, Act.map_id]
  split <;> exact ⟨rfl, rfl⟩

theorem mirrors_transfer (a : Artifact) (n k : Nat) (b : Blob (World F)) :
    Mirrors id (transfer a (b.observed n k)) (transfer a b) := by
  unfold transfer
  refine (mirrors_size n k b).attempt.bind fun _ => ?_
  refine (mirrors_changeDisk _).bind fun file => ?_
  refine (mirrors_store n k b file).bind fun _ => ?_
  refine (mirrors_inspectDisk _).bind fun stored => ?_
  refine (mirrors_digests n k b).bind fun remote => ?_
  exact (mirrors_changeDisk _).ite (Act.mirrors_fail id _)

theorem mirrors_transferAll (a : Artifact) (n k : Nat) (bs : List (Blob (World F))) :
    Mirrors id (transferAll a (observedBlobs n k bs)) (transferAll a bs) := by
  induction bs generalizing k with
  | nil => exact Act.mirrors_pure id ()
  | cons b rest ih =>
    rw [observedBlobs]
    rw [transferAll_cons, transferAll_cons]
    have htaken : Mirrors id (taking (F := F × History) b.id) (taking b.id) :=
      (mirrors_claim b.id).ite (Act.mirrors_pure id true)
    refine htaken.bind fun taken => ?_
    refine ((mirrors_transfer a n k b).ite (Act.mirrors_pure id ())).bind fun _ => ?_
    exact ih (k + 1)

theorem mirrors_backUp (a : Artifact) (n : Nat) (i : Instance (World F)) :
    Mirrors id (backUp a (i.observed n)) (backUp a i) := by
  unfold backUp
  refine (mirrors_act n i .backup).bind fun _ => ?_
  exact (mirrors_blobs n i).bind fun bs => mirrors_transferAll a n 0 bs

theorem mirrors_upload (a : Artifact) (n k : Nat) (b : Blob (World F)) :
    Mirrors id (upload a (b.observed n k)) (upload a b) := by
  unfold upload
  refine (mirrors_inspectDisk _).bind fun expected => ?_
  cases expected with
  | none => exact Act.mirrors_fail id _
  | some expected =>
    refine (mirrors_inspectDisk _).bind fun source => ?_
    refine (mirrors_replace n k b source).bind fun _ => ?_
    refine (mirrors_digests n k b).bind fun remote => ?_
    exact (Act.mirrors_pure id ()).ite (Act.mirrors_fail id _)

theorem mirrors_uploadAll (a : Artifact) (n k : Nat) (bs : List (Blob (World F))) :
    Mirrors id (uploadAll a (observedBlobs n k bs)) (uploadAll a bs) := by
  induction bs generalizing k with
  | nil => exact Act.mirrors_pure id ()
  | cons b rest ih =>
    rw [observedBlobs]
    unfold uploadAll
    exact (mirrors_upload a n k b).bind fun _ => ih (k + 1)

theorem mirrors_putBack (a : Artifact) (n : Nat) (i : Instance (World F)) :
    Mirrors id (putBack a (i.observed n)) (putBack a i) := by
  unfold putBack
  refine (mirrors_blobs n i).bind fun bs => ?_
  exact (mirrors_uploadAll a n 0 bs).bind fun _ => mirrors_act n i .restore

/-! #### Inspections -/

theorem mirrors_inspectOne (n : Nat) (i : Instance (World F)) :
    Mirrors id (inspectOne (i.observed n)) (inspectOne i) := by
  rw [inspectOne_eq, inspectOne_eq]
  refine (mirrors_blobs n i).bind fun bs => ?_
  simp only [isEmpty_observedBlobs, any_observedBlobs n 0 bs fun id => !id.isNamed]
  refine ((Act.mirrors_pure id false).ite (mirrors_capable n i .restore)).bind fun restorable => ?_
  exact Act.mirrors_pure id _

theorem inspectAll_observed (number n : Nat) (is : List (Instance (World F)))
    (w : World (F × History)) :
    (inspectAll number (observedFrom n is) w).1 = (inspectAll number is w.seen).1 ∧
      (inspectAll number (observedFrom n is) w).2.seen = (inspectAll number is w.seen).2 := by
  induction is generalizing number n w with
  | nil => exact ⟨rfl, rfl⟩
  | cons i rest ih =>
    obtain ⟨hvalue, hseen⟩ := mirrors_inspectOne n i w
    obtain ⟨hothers, hrest⟩ := ih (number + 1) (n + 1) (inspectOne (i.observed n) w).2
    rw [Act.map_id] at hvalue
    rw [hseen] at hothers hrest
    rw [observedFrom, inspectAll_cons, inspectAll_cons]
    simp only [hvalue, hothers, hrest, and_true]
    rfl

theorem inspect_observed {ε : Type} (is : List (Instance (World F)))
    (w : World (F × History)) :
    (inspect (ε := ε) (observedFrom 0 is) w).1 = (inspect is w.seen).1 ∧
      (inspect (ε := ε) (observedFrom 0 is) w).2.seen = (inspect (ε := ε) is w.seen).2 := by
  obtain ⟨hvalue, hseen⟩ := inspectAll_observed 1 0 is w
  rw [inspect_eq, inspect_eq]
  simp only [hvalue, hseen, and_self]

/-! #### Phases -/

section Phases

variable {moveData : Instance (World F) → Act (World F) Unit}
  {moveData' : Instance (World (F × History)) → Act (World (F × History)) Unit}

theorem visit_observed (phase : Phase) (n : Nat) (i : Instance (World F))
    (h : Mirrors id (moveData' (i.observed n)) (moveData i)) (w : World (F × History)) :
    (phase.visit moveData' (i.observed n) w).1 = (phase.visit moveData i w.seen).1 ∧
      (phase.visit moveData' (i.observed n) w).2.seen = (phase.visit moveData i w.seen).2 := by
  have hturn : Mirrors id (phase.turn moveData' (i.observed n)) (phase.turn moveData i) := by
    unfold Phase.turn
    exact (mirrors_capable n i phase).bind fun _ => h.ite (Act.mirrors_pure id ())
  obtain ⟨hvalue, hseen⟩ := hturn w
  rw [Act.map_id] at hvalue
  unfold Phase.visit
  cases hx : phase.turn moveData i w.seen with
  | mk result after =>
    cases hy : phase.turn moveData' (i.observed n) w with
    | mk result' after' =>
      rw [hx] at hvalue hseen
      rw [hy] at hvalue hseen
      obtain rfl : result' = result := hvalue
      cases result' <;> exact ⟨rfl, hseen⟩

theorem sweep_observed (phase : Phase) (n : Nat) (is : List (Instance (World F)))
    (h : ∀ n i, Mirrors id (moveData' (i.observed n)) (moveData i)) (w : World (F × History)) :
    (phase.sweep moveData' (observedFrom n is) w).1 = (phase.sweep moveData is w.seen).1 ∧
      (phase.sweep moveData' (observedFrom n is) w).2.seen =
        (phase.sweep moveData is w.seen).2 := by
  induction is generalizing n w with
  | nil => exact ⟨rfl, rfl⟩
  | cons i rest ih =>
    obtain ⟨hvalue, hseen⟩ := visit_observed phase n i (h n i) w
    obtain ⟨hothers, hrest⟩ := ih (n + 1) (phase.visit moveData' (i.observed n) w).2
    rw [hseen] at hothers hrest
    rw [observedFrom, Phase.sweep_cons, Phase.sweep_cons, hvalue, hothers]
    exact ⟨rfl, hrest⟩

theorem enter_observed (p : Progress) (state : State) (phase : Phase)
    (is : List (Instance (World F)))
    (h : ∀ n i, Mirrors id (moveData' (i.observed n)) (moveData i)) (w : World (F × History)) :
    (p.enter state phase moveData' (observedFrom 0 is) w).1 =
        (p.enter state phase moveData is w.seen).1 ∧
      (p.enter state phase moveData' (observedFrom 0 is) w).2.seen =
        (p.enter state phase moveData is w.seen).2 := by
  obtain ⟨hvalue, hseen⟩ := sweep_observed phase 0 is h w
  rw [enter_eq, enter_eq, hvalue]
  exact ⟨rfl, hseen⟩

theorem mirrors_own (phase : Phase) (n : Nat) (i : Instance (World F)) :
    Mirrors id (phase.own (i.observed n)) (phase.own i) :=
  mirrors_act n i phase

theorem moved_observed (policy : Policy) (plan : Plan) (is : List (Instance (World F)))
    (h : ∀ n i, Mirrors id (moveData' (i.observed n)) (moveData i))
    (locked : Progress × World (F × History)) (locked' : Progress × World F)
    (hvalue : locked.1 = locked'.1) (hseen : locked.2.seen = locked'.2) :
    (moved policy plan moveData' (observedFrom 0 is) locked).1 =
        (moved policy plan moveData is locked').1 ∧
      (moved policy plan moveData' (observedFrom 0 is) locked).2.seen =
        (moved policy plan moveData is locked').2 := by
  unfold moved
  rw [← hvalue, ← hseen]
  split
  · exact ⟨hvalue, hseen⟩
  · exact enter_observed locked.1 plan.dataState plan.data is h locked.2

theorem drive_observed (policy : Policy) (plan : Plan) (is : List (Instance (World F)))
    (h : ∀ n i, Mirrors id (moveData' (i.observed n)) (moveData i)) (w : World (F × History)) :
    (drive policy plan moveData' (observedFrom 0 is) w).1 =
        (drive policy plan moveData is w.seen).1 ∧
      (drive policy plan moveData' (observedFrom 0 is) w).2.seen =
        (drive policy plan moveData is w.seen).2 := by
  rw [drive_eq, drive_eq]
  have hlock := enter_observed .start .locking plan.lock is (mirrors_own plan.lock) w
  have hdata := moved_observed policy plan is h _ _ hlock.1 hlock.2
  have hunlock (p : Progress) (w : World (F × History)) :=
    enter_observed p .unlocking plan.unlock is (mirrors_own plan.unlock) w
  have hclean (p : Progress) (w : World (F × History)) :=
    enter_observed p .cleanup .cleanup is (mirrors_own .cleanup) w
  simp only
  rw [← hdata.1, ← hdata.2, ← (hunlock _ _).1, ← (hunlock _ _).2]
  exact hclean _ _

end Phases

/-! #### Runs -/

section

variable {ε : Type} {d : Deployment (World F) ε} {w : World F}

theorem observed_instances_ok {is : List (Instance (World F))} (h : d.instances w = .ok is) :
    d.observed.instances (w.noting []) = .ok (observedFrom 0 is) := by
  show (d.instances w).map _ = _
  rw [h]
  rfl

theorem observed_instances_error {cause : ε} (h : d.instances w = .error cause) :
    d.observed.instances (w.noting []) = .error cause := by
  show (d.instances w).map _ = _
  rw [h]
  rfl

end

theorem finished_observed {ε : Type} (a : Artifact) (finish : Instant) (path : String)
    (driven : Progress × World (F × History)) (driven' : Progress × World F)
    (hvalue : driven.1 = driven'.1) (hseen : driven.2.seen = driven'.2) :
    (finished (ε := ε) a finish path driven).1 = (finished a finish path driven').1 ∧
      (finished (ε := ε) a finish path driven).2.seen =
        (finished (ε := ε) a finish path driven').2 := by
  unfold finished
  rw [← hvalue, ← hseen, World.disk_seen]
  cases a.addFinishTime finish driven.2.disk <;> exact ⟨rfl, rfl⟩

/-- The run that is noted is the run itself. -/
theorem backup_observed {ε : Type} (d : Deployment (World F) ε) (policy : Policy) (path : String)
    (start finish : Instant) (w : World F) :
    (backup d.observed policy path start finish (w.noting [])).1 =
        (backup d policy path start finish w).1 ∧
      (backup d.observed policy path start finish (w.noting [])).2.seen =
        (backup d policy path start finish w).2 := by
  -- No member is called before the walk, so up to there the two runs are one.
  cases hinstances : d.instances w with
  | error cause =>
    unfold backup
    simp only [Deployment.observed, World.seen_noting, hinstances]
    exact ⟨rfl, rfl⟩
  | ok instances =>
    cases hmanifest : d.manifest w with
    | error cause =>
      unfold backup
      simp only [Deployment.observed, World.seen_noting, hinstances, hmanifest]
      exact ⟨rfl, rfl⟩
    | ok manifest =>
      cases hprepare : prepare path manifest start w.disk with
      | mk outcome disk =>
        cases outcome with
        | error fault =>
          unfold backup
          simp only [Deployment.observed, World.seen_noting, hinstances, hmanifest, Except.map,
            World.disk_noting, hprepare, true_and]
          rfl
        | ok a =>
          rw [backup_eq hinstances hmanifest hprepare,
            backup_eq (observed_instances_ok hinstances) hmanifest hprepare]
          obtain ⟨hvalue, hseen⟩ := drive_observed policy backupPlan instances
            (mirrors_backUp a) (World.noting { w with disk := disk, claimed := [] } [])
          exact finished_observed a finish path _ _ hvalue hseen

/-- The run that is noted is the run itself. -/
theorem restore_observed {ε : Type} (d : Deployment (World F) ε) (policy : Policy)
    (path : String) (w : World F) :
    (restore d.observed policy path (w.noting [])).1 = (restore d policy path w).1 ∧
      (restore d.observed policy path (w.noting [])).2.seen = (restore d policy path w).2 := by
  cases hinstances : d.instances w with
  | error cause =>
    rw [restore_not_found hinstances, restore_not_found (observed_instances_error hinstances)]
    exact ⟨rfl, rfl⟩
  | ok instances =>
    cases hopen : Artifact.openAt w.disk path with
    | error fault =>
      rw [restore_not_opened hinstances hopen,
        restore_not_opened (observed_instances_ok hinstances) hopen]
      exact ⟨rfl, rfl⟩
    | ok a =>
      rw [restore_eq hinstances hopen, restore_eq (observed_instances_ok hinstances) hopen]
      -- The questions are noted too; their answers are the same.
      obtain ⟨hvalue, hseen⟩ := inspect_observed (ε := ε) instances (w.noting [])
      rw [World.seen_noting] at hvalue hseen
      simp only [hvalue, ← hseen, World.disk_seen]
      generalize (inspect (ε := ε) (observedFrom 0 instances) (w.noting [])).2 = w
      cases (inspect (ε := ε) instances _).1 with
      | error e => exact ⟨rfl, rfl⟩
      | ok holdings =>
        obtain ⟨hdriven, hlast⟩ := drive_observed policy restorePlan instances
          (mirrors_putBack a) w
        rw [← hdriven, ← hlast]
        simp only
        rcases checkCompatibility (ε := ε) a holdings w.disk with e | ⟨⟩
        · exact ⟨rfl, rfl⟩
        · rcases checkRestorable (ε := ε) holdings with e | ⟨⟩ <;> exact ⟨rfl, rfl⟩

end Workflow

end DeploymentBackup
