import DeploymentBackup.Workflow.Restore

namespace DeploymentBackup

/-!
# The steps of a walk

Each function of a walk changes the world and gives a value. The equations below say what
both are, one step of the walk at a time.

* `visit_eq`, `sweep_cons` — one turn, and one more.
* `attempt_eq` — an action whose failure is a value.
* `bind_of_ok`, `bind_of_error` — actions, one behind the other.
* `inspectDisk_eq` — what is asked of the disk.
* `enter_eq`, `drive_eq` — one state, and all of them.
* `taking_run`, `transferAll_cons`, `inspectAll_cons` — one more blob, and one more inspection.
* `backup_eq`, `restore_eq` — a run that enters its phases.
* `backup_not_described`, `backup_not_prepared`, `restore_not_found`, `restore_not_opened` — a run
  that does not.
-/

variable {W F ε α : Type}

theorem Phase.sweep_cons (phase : Phase) (operation : Instance W → Act W Unit) (i : Instance W)
    (rest : List (Instance W)) (w : W) :
    phase.sweep operation (i :: rest) w =
      ((phase.visit operation i w).1 ++
          (phase.sweep operation rest (phase.visit operation i w).2).1,
        (phase.sweep operation rest (phase.visit operation i w).2).2) := rfl

/-- The failure that is left of a turn. -/
def Phase.failures (phase : Phase) (id : Identifier) : Except Halt Unit → PhaseErrors
  | .ok () => []
  | .error halt => [⟨id, phase, causeOf halt⟩]

theorem Phase.visit_eq (phase : Phase) (operation : Instance W → Act W Unit) (i : Instance W) :
    phase.visit operation i = fun w =>
      (phase.failures i.id (phase.turn operation i w).1, (phase.turn operation i w).2) := by
  funext w
  unfold visit
  rcases phase.turn operation i w with ⟨halt | _, after⟩ <;> rfl

/-- What an attempt makes of an outcome: a failure is a value. -/
def attempted : Except Halt α → Except Halt (Except Instance.Fault α)
  | .ok a => .ok (.ok a)
  | .error (.fault cause) => .ok (.error cause)
  | .error (.panic payload) => .error (.panic payload)

theorem attempt_eq (x : Act W α) : x.attempt = fun w => (attempted (x w).1, (x w).2) := by
  funext w
  unfold Act.attempt
  rcases x w with ⟨(cause | payload) | a, after⟩ <;> rfl

namespace Workflow

/-! ### Lists that are worked off -/

section Lists

variable {α : Type} {l rest : List α} {x : α} {k : Nat}

/-- What stands at a place, and what is left behind it. -/
theorem of_drop_eq_cons (h : l.drop k = x :: rest) : l[k]? = some x ∧ l.drop (k + 1) = rest := by
  refine ⟨?_, ?_⟩
  · rw [← List.head?_drop, h]
    rfl
  · rw [← List.tail_drop, h]
    rfl

/-- What is known of a list by its places is known of its tail, one place further. -/
theorem tail_places {P : Nat → α → Prop} (h : ∀ j y, (x :: rest)[j]? = some y → P (k + j) y) :
    ∀ j y, rest[j]? = some y → P (k + 1 + j) y := by
  intro j y hy
  rw [Nat.add_assoc, Nat.add_comm 1 j]
  exact h (j + 1) y hy

end Lists

/-! ### Actions and states -/

theorem bind_of_ok {α β : Type} {x : Act W α} {f : α → Act W β} {w w' : W} {v : α}
    (h : x w = (.ok v, w')) : (x >>= f) w = f v w' := by
  rw [Act.bind_apply, h]

theorem bind_of_error {α β : Type} {x : Act W α} {f : α → Act W β} {w w' : W} {halt : Halt}
    (h : x w = (.error halt, w')) : (x >>= f) w = (.error halt, w') := by
  rw [Act.bind_apply, h]

theorem inspectDisk_eq {α : Type} (f : Disk → Except Artifact.Fault α) :
    (inspectDisk f : Act (World F) α) =
      fun w => (((f w.disk).mapError Instance.Fault.artifact).mapError Halt.fault, w) := by
  funext w
  show Act.ofExcept ((f w.disk).mapError Instance.Fault.artifact) w = _
  cases f w.disk <;> rfl

theorem enter_eq (p : Progress) (state : State) (phase : Phase)
    (operation : Instance W → Act W Unit) (instances : List (Instance W)) (w : W) :
    p.enter state phase operation instances w =
      (⟨p.transitions ++ [state], p.errors ++ (phase.sweep operation instances w).1⟩,
        (phase.sweep operation instances w).2) := rfl

theorem phase_of_mem_sweep {phase : Phase} {operation : Instance W → Act W Unit}
    {is : List (Instance W)} {w : W} {e : PhaseError} (he : e ∈ (phase.sweep operation is w).1) :
    e.phase = phase := by
  induction is generalizing w with
  | nil => cases he
  | cons i rest ih =>
    rw [Phase.sweep_cons] at he
    rcases List.mem_append.mp he with he | he
    · unfold Phase.visit at he
      generalize phase.turn operation i w = turned at he
      obtain ⟨halt | _, w'⟩ := turned
      · rw [List.mem_singleton.mp he]
      · cases he
    · exact ih he

/-- The data phase, or nothing when locking failed and the policy says so. -/
def moved (policy : Policy) (plan : Plan) (moveData : Instance W → Act W Unit)
    (instances : List (Instance W)) (locked : Progress × W) : Progress × W :=
  if policy = .failFast && !locked.1.errors.isEmpty then locked
  else locked.1.enter plan.dataState plan.data moveData instances locked.2

theorem drive_eq (policy : Policy) (plan : Plan) (moveData : Instance W → Act W Unit)
    (instances : List (Instance W)) (w : W) :
    drive policy plan moveData instances w =
      let locked := Progress.start.enter .locking plan.lock plan.lock.own instances w
      let data := moved policy plan moveData instances locked
      let unlocked := data.1.enter .unlocking plan.unlock plan.unlock.own instances data.2
      unlocked.1.enter .cleanup .cleanup (Phase.own .cleanup) instances unlocked.2 := rfl

/-! ### Blobs and inspections -/

/-- Whether a blob is stored now: a shared one is when it can be claimed. -/
def taking (shared : Identifier) : Act (World F) Bool :=
  if shared.isNamed then claim shared else pure true

/-- A shared blob is passed over when it was claimed before, and claimed otherwise. -/
theorem taking_run (shared : Identifier) (w : World F) :
    (shared.isNamed = true ∧ shared ∈ w.claimed ∧ taking shared w = (.ok false, w)) ∨
      ∃ w₁, taking shared w = (.ok true, w₁) ∧ (shared.isNamed = true → shared ∉ w.claimed) ∧
        w₁.disk = w.disk ∧ w₁.fleet = w.fleet ∧
        ∀ other, other ∈ w₁.claimed ↔
          other ∈ w.claimed ∨ shared.isNamed = true ∧ other = shared := by
  unfold taking
  cases hnamed : shared.isNamed with
  | false =>
    -- A blob of its own is taken without a claim.
    refine .inr ⟨w, rfl, ?_, rfl, rfl, ?_⟩
    · intro hc
      cases hc
    · intro other
      simp
  | true =>
    rw [if_pos rfl]
    unfold claim
    by_cases hclaimed : shared ∈ w.claimed
    · left
      refine ⟨rfl, hclaimed, ?_⟩
      rw [if_pos (List.contains_iff_mem.mpr hclaimed)]
    · right
      refine ⟨{ w with claimed := shared :: w.claimed }, ?_, fun _ => hclaimed, rfl, rfl, ?_⟩
      · rw [if_neg fun hc => hclaimed (List.contains_iff_mem.mp hc)]
      · intro other
        simp [or_comm]

theorem transferAll_cons (a : Artifact) (b : Blob (World F)) (rest : List (Blob (World F))) :
    transferAll a (b :: rest) =
      taking b.id >>= fun taken =>
        (if taken then transfer a b else pure ()) >>= fun _ => transferAll a rest := by
  unfold taking
  rw [transferAll]
  split
  · show (claim b.id >>= fun taken => _) = _
    congr 1
    funext taken
    cases taken <;> rfl
  · rfl

theorem inspectOne_eq (i : Instance (World F)) :
    inspectOne i = do
      let bs ← i.blobs
      let restorable ← (if bs.isEmpty then pure false else i.capable .restore : Act _ Bool)
      return ⟨i.id, bs.any (! ·.id.isNamed), !bs.isEmpty, restorable⟩ := by
  unfold inspectOne
  congr 1
  funext bs
  split <;> rfl

theorem inspectAll_cons (number : Nat) (i : Instance (World F)) (rest : List (Instance (World F)))
    (w : World F) :
    inspectAll number (i :: rest) w =
      let others := inspectAll (number + 1) rest (inspectOne i w).2
      (match (inspectOne i w).1 with
        | .ok holding => (holding :: others.1.1, others.1.2)
        | .error halt =>
          (others.1.1, ⟨i.id, .restore, inspectionCause number halt⟩ :: others.1.2),
        others.2) := by
  show (match (inspectOne i w).1 with | .ok _ => _ | .error _ => _) = _
  cases (inspectOne i w).1 <;> rfl

theorem inspect_eq (instances : List (Instance (World F))) (w : World F) :
    inspect (ε := ε) instances w =
      let inspected := inspectAll 1 instances w
      (if inspected.1.2.isEmpty then .ok inspected.1.1 else .error (.discovery inspected.1.2),
        inspected.2) := rfl

/-! ### Runs -/

/-- The end of a backup that went through its phases. -/
def finished (a : Artifact) (finish : Instant) (path : String) (driven : Progress × World F) :
    Except (Error ε) Report × World F :=
  match a.addFinishTime finish driven.2.disk with
  | .ok disk => (driven.1.finish path, { driven.2 with disk := disk })
  | .error fault =>
    (if driven.1.isBlocked then driven.1.finish path else .error (.artifact fault), driven.2)

section

variable {d : Deployment (World F) ε} {policy : Policy} {path : String} {w : World F}
  {instances : List (Instance (World F))} {a : Artifact}

theorem backup_eq {start finish : Instant} {manifest : String} {disk : Disk}
    (hinstances : d.instances w = .ok instances) (hmanifest : d.manifest w = .ok manifest)
    (hprepare : prepare path manifest start w.disk = (.ok a, disk)) :
    backup d policy path start finish w =
      finished a finish path
        (drive policy backupPlan (backUp a) instances { w with disk := disk, claimed := [] }) := by
  unfold backup
  rw [hinstances, hmanifest]
  simp only [hprepare]
  rfl

theorem backup_not_described {start finish : Instant} {cause : ε}
    (hinstances : d.instances w = .ok instances) (hmanifest : d.manifest w = .error cause) :
    backup d policy path start finish w = (.error (.deployment cause), w) := by
  unfold backup
  rw [hinstances, hmanifest]

theorem backup_not_prepared {start finish : Instant} {manifest : String} {disk : Disk}
    {fault : Artifact.Fault} (hinstances : d.instances w = .ok instances)
    (hmanifest : d.manifest w = .ok manifest)
    (hprepare : prepare path manifest start w.disk = (.error fault, disk)) :
    backup d policy path start finish w = (.error (.artifact fault), { w with disk := disk }) := by
  unfold backup
  rw [hinstances, hmanifest]
  simp only [hprepare]

theorem restore_not_found {cause : ε} (h : d.instances w = .error cause) :
    restore d policy path w = (.error (.deployment cause), w) := by
  unfold restore
  rw [h]

theorem restore_not_opened {fault : Artifact.Fault} (hinstances : d.instances w = .ok instances)
    (hopen : Artifact.openAt w.disk path = .error fault) :
    restore d policy path w = (.error (.artifact fault), w) := by
  unfold restore
  rw [hinstances]
  simp only [hopen]

theorem restore_eq (hinstances : d.instances w = .ok instances)
    (hopen : Artifact.openAt w.disk path = .ok a) :
    restore d policy path w =
      let inspected := inspect instances w
      match inspected.1 with
      | .error e => (.error e, inspected.2)
      | .ok holdings =>
        match checkCompatibility a holdings inspected.2.disk, checkRestorable holdings with
        | .error e, _ => (.error e, inspected.2)
        | .ok (), .error e => (.error e, inspected.2)
        | .ok (), .ok () =>
          let driven := drive policy restorePlan (putBack a) instances inspected.2
          (driven.1.finish path, driven.2) := by
  unfold restore
  rw [hinstances]
  simp only [hopen]
  obtain ⟨outcome, after⟩ := inspect (ε := ε) instances w
  cases outcome <;> rfl

end

end Workflow

end DeploymentBackup
