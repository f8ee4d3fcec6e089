import DeploymentBackup.Proofs.Workflow.Calls

namespace DeploymentBackup

/-!
# The walk through the phases

The history of a run that enters its phases is a walk: phase by phase, every instance has one
turn, in which it is asked whether it is capable of the phase, and in which the operation of
the phase is carried out exactly when it says so. Only the data phase may be left out. The
report tells the failures of the turns, in the order of the walk.

* `Phase.Operated` — the calls that make up the operation of a phase.
* `Turn`, `Turn.Of` — the turn of one instance.
* `Turn.Of.calls`, `Turn.mem_historyOf` — the calls of one turn, and of all turns.
* `Walk`, `Walk.Of` — the turns of all instances in all phases.
* `Walk.ending` — the report of a walk.
* `IsTurn`, `sweep_to` — the visit of an instance is a turn, and what is kept from turn to turn.
* `drive_walk` — what a run does is a walk, and what it reports is the report of the walk.
-/

variable {F ε : Type} {α β : Type}

/-! ### Operations and turns -/

open Workflow (WorksOff PassedOrMoved Receives)

/-- The calls of one instance that make up the operation of a phase, with its outcome. A
    backup starts with the action of the instance, goes on with its list of blobs, and ends with
    the blobs as they are worked off. A restore lists the blobs first, and ends with the action
    when all of them could be put back, or with the failure of the first one that could not. In
    every other phase the instance acts, and that is all. -/
def Phase.Operated : Phase → List Call → Except Halt Unit → Prop
  | .backup, calls, outcome =>
    (∃ halt, calls = [.acted .backup (.error halt)] ∧ outcome = .error halt) ∨
    (∃ halt, calls = [.acted .backup (.ok ()), .listed (.error halt)] ∧ outcome = .error halt) ∨
    ∃ ids moved, calls = .acted .backup (.ok ()) :: .listed (.ok ids) :: moved ∧
      WorksOff PassedOrMoved 0 ids moved outcome
  | .restore, calls, outcome =>
    (∃ halt, calls = [.listed (.error halt)] ∧ outcome = .error halt) ∨
    ∃ ids moved,
      (∃ halt, WorksOff Receives 0 ids moved (.error halt) ∧
        calls = .listed (.ok ids) :: moved ∧ outcome = .error halt) ∨
      WorksOff Receives 0 ids moved (.ok ()) ∧
        calls = .listed (.ok ids) :: moved ++ [.acted .restore outcome]
  | phase, calls, outcome => calls = [.acted phase outcome]

/-- The turn of one instance in a phase: whether it says that it is capable, the calls that
    follow, and how the turn ends. -/
structure Turn where
  answer : Except Halt Bool
  calls : List Call
  outcome : Except Halt Unit

namespace Turn

/-- The operation is carried out exactly when the instance is capable of the phase. -/
def Of (phase : Phase) (t : Turn) : Prop :=
  match t.answer with
  | .ok true => phase.Operated t.calls t.outcome
  | .ok false => t.calls = [] ∧ t.outcome = .ok ()
  | .error halt => t.calls = [] ∧ t.outcome = .error halt

/-- The turn ended with a failure or a panic. -/
def Failed (t : Turn) : Prop :=
  ∃ halt, t.outcome = .error halt

/-- The calls of the turns of the instances from position `n` on. -/
def historyOf (phase : Phase) : (n : Nat) → List Turn → History
  | _, [] => []
  | n, t :: rest =>
    ⟨n, .asked phase t.answer⟩ :: t.calls.map (Event.mk n) ++ historyOf phase (n + 1) rest

/-- What is reported of the turn of an instance. -/
def errorsOfOne (phase : Phase) (instanceId : Identifier) (t : Turn) : PhaseErrors :=
  match t.outcome with
  | .ok () => []
  | .error halt => [⟨instanceId, phase, Phase.causeOf halt⟩]

/-- What is reported of the turns of instances, in their order. -/
def errorsOf (phase : Phase) : List Identifier → List Turn → PhaseErrors
  | instanceId :: ids, t :: rest => errorsOfOne phase instanceId t ++ errorsOf phase ids rest
  | _, _ => []

/-- Every instance has its turn. -/
def All (phase : Phase) (count : Nat) (turns : List Turn) : Prop :=
  turns.length = count ∧ ∀ t ∈ turns, t.Of phase

end Turn

/-- In its operation, an instance acts in this phase only, lists its blobs, or is called for one
    of them. -/
theorem Phase.Operated.calls {phase : Phase} {calls : List Call} {outcome : Except Halt Unit}
    (h : phase.Operated calls outcome) {c : Call} (hc : c ∈ calls) :
    c.isOfBlob ∨ (∃ outcome, c = .acted phase outcome) ∨ ∃ answer, c = .listed answer := by
  cases phase with
  | backup =>
    rcases h with ⟨halt, rfl, -⟩ | ⟨halt, rfl, -⟩ | ⟨ids, moved, rfl, hmoved⟩
    · simp_all
    · simp only [List.mem_cons, List.not_mem_nil, or_false] at hc
      rcases hc with rfl | rfl
      · exact .inr (.inl ⟨_, rfl⟩)
      · exact .inr (.inr ⟨_, rfl⟩)
    · simp only [List.mem_cons] at hc
      rcases hc with rfl | rfl | hc
      · exact .inr (.inl ⟨_, rfl⟩)
      · exact .inr (.inr ⟨_, rfl⟩)
      · exact .inl (hmoved.all (fun _ _ _ _ h => h.ofBlob) c hc)
  | restore =>
    rcases h with ⟨halt, rfl, -⟩ | ⟨ids, moved, ⟨halt, hmoved, rfl, -⟩ | ⟨hmoved, rfl⟩⟩
    · rw [List.mem_singleton.mp hc]
      exact .inr (.inr ⟨_, rfl⟩)
    · rcases List.mem_cons.mp hc with rfl | hc
      · exact .inr (.inr ⟨_, rfl⟩)
      · exact .inl (hmoved.all (fun _ _ _ _ h => h.ofBlob) c hc)
    · simp only [List.cons_append, List.mem_cons, List.mem_append, List.not_mem_nil, or_false] at hc
      rcases hc with rfl | hc | rfl
      · exact .inr (.inr ⟨_, rfl⟩)
      · exact .inl (hmoved.all (fun _ _ _ _ h => h.ofBlob) c hc)
      · exact .inr (.inl ⟨_, rfl⟩)
  -- In all other phases the one call is that of the phase.
  | preBackupLock | postBackupUnlock | preRestoreLock | postRestoreUnlock | cleanup =>
    obtain rfl : calls = _ := h
    rw [List.mem_singleton.mp hc]
    exact .inr (.inl ⟨_, rfl⟩)

theorem Turn.Of.calls {phase : Phase} {t : Turn} (h : t.Of phase) {c : Call} (hc : c ∈ t.calls) :
    c.isOfBlob ∨ (∃ outcome, c = .acted phase outcome) ∨ ∃ answer, c = .listed answer := by
  unfold Turn.Of at h
  rcases hanswer : t.answer with halt | able
  · rw [hanswer] at h
    rw [h.1] at hc
    cases hc
  · rw [hanswer] at h
    cases able with
    | true => exact Phase.Operated.calls h hc
    | false =>
      rw [h.1] at hc
      cases hc

theorem Turn.mem_historyOf {phase : Phase} {n : Nat} {turns : List Turn} {e : Event} :
    e ∈ Turn.historyOf phase n turns ↔ ∃ j t, turns[j]? = some t ∧ e.member = n + j ∧
      (e.call = .asked phase t.answer ∨ e.call ∈ t.calls) := by
  induction turns generalizing n with
  | nil => simp [Turn.historyOf]
  | cons t rest ih =>
    -- The events of the first turn are its question and its calls.
    have hfirst : e ∈ ⟨n, .asked phase t.answer⟩ :: t.calls.map (Event.mk n) ↔
        e.member = n ∧ (e.call = .asked phase t.answer ∨ e.call ∈ t.calls) := by
      obtain ⟨member, call⟩ := e
      simp only [List.mem_cons, List.mem_map, Event.mk.injEq]
      constructor
      · rintro (⟨rfl, rfl⟩ | ⟨c, hc, rfl, rfl⟩)
        · exact ⟨rfl, .inl rfl⟩
        · exact ⟨rfl, .inr hc⟩
      · rintro ⟨rfl, rfl | hc⟩
        · exact .inl ⟨rfl, rfl⟩
        · exact .inr ⟨call, hc, rfl, rfl⟩
    rw [Turn.historyOf, List.mem_append, hfirst, ih]
    constructor
    · rintro (⟨hmember, hcall⟩ | ⟨j, t', ht', hmember, hcall⟩)
      · exact ⟨0, t, rfl, hmember, hcall⟩
      · exact ⟨j + 1, t', ht', by omega, hcall⟩
    · rintro ⟨j, t', ht', hmember, hcall⟩
      cases j with
      | zero =>
        cases ht'
        exact .inl ⟨hmember, hcall⟩
      | succ j => exact .inr ⟨j, t', ht', by omega, hcall⟩

/-! ### Walks -/

/-- The turns of all instances, phase by phase. -/
structure Walk where
  lock : List Turn
  /-- Nothing, when the data phase is left out. -/
  data : Option (List Turn)
  unlock : List Turn
  cleanup : List Turn

namespace Walk

open Workflow

/-- Every instance has its turn in each phase, except that the data phase is left out when
    an instance could not be locked and the policy says so. -/
structure Of (policy : Policy) (plan : Plan) (count : Nat) (k : Walk) : Prop where
  lock : Turn.All plan.lock count k.lock
  data : ∀ turns, k.data = some turns → Turn.All plan.data count turns
  unlock : Turn.All plan.unlock count k.unlock
  cleanup : Turn.All .cleanup count k.cleanup
  leftOut : k.data = none ↔ policy = .failFast ∧ ∃ t ∈ k.lock, t.Failed

/-- The turns of the data phase. -/
def moved (k : Walk) : List Turn :=
  k.data.getD []

/-- All calls of the walk. No phase starts before the one in front of it is over. -/
def history (plan : Plan) (k : Walk) : History :=
  Turn.historyOf plan.lock 0 k.lock ++ Turn.historyOf plan.data 0 k.moved ++
    Turn.historyOf plan.unlock 0 k.unlock ++ Turn.historyOf .cleanup 0 k.cleanup

/-- The failures that make a run fail, in the order of the phases. -/
def blocking (plan : Plan) (ids : List Identifier) (k : Walk) : PhaseErrors :=
  Turn.errorsOf plan.lock ids k.lock ++ Turn.errorsOf plan.data ids k.moved ++
    Turn.errorsOf plan.unlock ids k.unlock

/-- The failures to clean up. -/
def advisory (ids : List Identifier) (k : Walk) : PhaseErrors :=
  Turn.errorsOf .cleanup ids k.cleanup

/-- The states of the walk, the last one excepted. -/
def states (plan : Plan) (k : Walk) : List State :=
  [.notStarted, .locking] ++ (if k.data.isSome then [plan.dataState] else []) ++
    [.unlocking, .cleanup]

/-- The report of the walk, which is a failure when there are failures other than those to
    clean up. -/
def ending (plan : Plan) (ids : List Identifier) (path : String) (k : Walk) :
    Except (Error ε) Report :=
  if k.blocking plan ids = [] then
    .ok ⟨.completed, path, [], k.advisory ids, k.states plan ++ [.completed]⟩
  else
    .error (.failed ⟨.failed, path, k.blocking plan ids, k.advisory ids,
      k.states plan ++ [.failed]⟩)

end Walk

namespace Workflow

open Act hiding pure bind

variable {n : Nat}

/-! ### The operations -/

/-- An operation whose calls on an instance are those of the phase. -/
def OperatesIn (phase : Phase)
    (operation : Instance (World (F × History)) → Act (World (F × History)) Unit) : Prop :=
  ∀ (n : Nat) (i : Instance (World F)), Notes n (operation (i.observed n)) phase.Operated

theorem operated_own (phase : Phase) (hbackup : phase ≠ .backup) (hrestore : phase ≠ .restore) :
    OperatesIn (F := F) phase phase.own := by
  intro n i
  refine (notes_observed (i.act phase) (.acted phase)).mono fun calls r hcalls => ?_
  cases phase <;> first | contradiction | exact hcalls

theorem operated_backUp (a : Artifact) : OperatesIn (F := F) .backup (backUp a) := by
  intro n i
  have hact : Notes n ((i.observed n).act .backup) fun calls r => calls = [.acted .backup r] :=
    notes_observed _ _
  have hmove := notes_listed (n := n) i (Q := WorksOff PassedOrMoved 0) (notes_transferAll a 0)
  unfold backUp
  refine (hact.bind fun _ => hmove).mono ?_
  rintro calls r (⟨halt, rfl, rfl⟩ | ⟨-, first, rest, rfl, hrest, rfl⟩)
  · exact .inl ⟨halt, rfl, rfl⟩
  · rcases hrest with ⟨halt, rfl, rfl⟩ | ⟨ids, moved, rfl, hmoved⟩
    · exact .inr (.inl ⟨halt, rfl, rfl⟩)
    · exact .inr (.inr ⟨ids, moved, rfl, hmoved⟩)

theorem operated_putBack (a : Artifact) : OperatesIn (F := F) .restore (putBack a) := by
  intro n i
  have hact : Notes n ((i.observed n).act .restore) fun calls r => calls = [.acted .restore r] :=
    notes_observed _ _
  have hmove (bs : List (Blob (World F))) :=
    (notes_uploadAll (n := n) a 0 bs).bind fun _ => hact
  unfold putBack
  refine (notes_listed i (Q := fun ids calls r =>
    (∃ halt, WorksOff Receives 0 ids calls (.error halt) ∧ r = .error halt) ∨
      ∃ sent, WorksOff Receives 0 ids sent (.ok ()) ∧
        calls = sent ++ [.acted .restore r]) fun bs => (hmove bs).mono ?_).mono ?_
  · rintro calls r (⟨halt, hmoved, rfl⟩ | ⟨⟨⟩, moved, last, hmoved, rfl, rfl⟩)
    · exact .inl ⟨halt, hmoved, rfl⟩
    · exact .inr ⟨moved, hmoved, rfl⟩
  · rintro calls r (⟨halt, rfl, rfl⟩ | ⟨ids, rest, rfl, ⟨halt, hmoved, rfl⟩ | ⟨sent, hmoved, rfl⟩⟩)
    · exact .inl ⟨halt, rfl, rfl⟩
    · exact .inr ⟨ids, rest, .inl ⟨halt, hmoved, rfl, rfl⟩⟩
    · exact .inr ⟨ids, sent, .inr ⟨hmoved, rfl⟩⟩

/-! ### The turns of a phase -/

section Turns

variable {phase : Phase}
  {operation : Instance (World (F × History)) → Act (World (F × History)) Unit}

theorem notes_turn (h : OperatesIn phase operation) (i : Instance (World F)) :
    Notes n (phase.turn operation (i.observed n)) fun calls r =>
      ∃ t : Turn, t.Of phase ∧ calls = .asked phase t.answer :: t.calls ∧ r = t.outcome := by
  have hasked : Notes n ((i.observed n).capable phase) fun calls r => calls = [.asked phase r] :=
    notes_observed _ _
  have hturn (able : Bool) : Notes n (if able then operation (i.observed n) else pure ())
      fun calls r => Turn.Of phase ⟨.ok able, calls, r⟩ := by
    cases able with
    | true => exact h n i
    | false => exact notes_pure ()
  unfold Phase.turn
  refine (hasked.bind hturn).mono ?_
  rintro calls r (⟨halt, rfl, rfl⟩ | ⟨able, first, rest, rfl, hof, rfl⟩)
  · exact ⟨⟨.error halt, [], .error halt⟩, ⟨rfl, rfl⟩, rfl, rfl⟩
  · exact ⟨⟨.ok able, rest, r⟩, hof, rfl, rfl⟩

/-- What the instance at position `n` does when it is visited, and what is left of it, is a turn. -/
structure IsTurn (phase : Phase)
    (operation : Instance (World (F × History)) → Act (World (F × History)) Unit) (n : Nat)
    (i : Instance (World F)) (w : World (F × History)) (t : Turn) : Prop where
  ofPhase : t.Of phase
  errors : (phase.visit operation (i.observed n) w).1 = t.errorsOfOne phase i.id
  history : (phase.visit operation (i.observed n) w).2.history =
    w.history ++ ⟨n, .asked phase t.answer⟩ :: t.calls.map (Event.mk n)

theorem isTurn_of_run {i : Instance (World F)} {w w' : World (F × History)} {t : Turn}
    (hof : t.Of phase) (hrun : phase.turn operation (i.observed n) w = (t.outcome, w'))
    (hhistory : w'.history = w.history ++ ⟨n, .asked phase t.answer⟩ :: t.calls.map (Event.mk n)) :
    IsTurn phase operation n i w t := by
  have hvisit : phase.visit operation (i.observed n) w = (phase.failures i.id t.outcome, w') := by
    rw [Phase.visit_eq]
    simp only [hrun]
    rfl
  refine ⟨hof, ?_, ?_⟩
  · rw [hvisit, Turn.errorsOfOne]
    rcases t.outcome with halt | _ <;> rfl
  · rw [hvisit, hhistory]

theorem visit_turn (h : OperatesIn phase operation) (i : Instance (World F))
    (w : World (F × History)) : ∃ t : Turn, IsTurn phase operation n i w t := by
  obtain ⟨calls, hhistory, t, hof, rfl, hr⟩ := notes_turn h i w
  exact ⟨t, isTurn_of_run hof (Prod.ext hr rfl) hhistory⟩

/-- The sweep of a phase over the instances from position `n` on is one turn for each instance,
    with something that is true of all of them. -/
def SweepsBy (P : Turn → Prop) (phase : Phase)
    (operation : Instance (World (F × History)) → Act (World (F × History)) Unit) (n : Nat)
    (is : List (Instance (World F))) (w : World (F × History)) : Prop :=
  ∃ turns, Turn.All phase is.length turns ∧ (∀ t ∈ turns, P t) ∧
    (phase.sweep operation (observedFrom n is) w).1 = Turn.errorsOf phase (is.map (·.id)) turns ∧
    (phase.sweep operation (observedFrom n is) w).2.history =
      w.history ++ Turn.historyOf phase n turns

/-- The sweep of a phase over the instances from position `n` on is one turn for each instance,
    with something that is true of all turns together and of the world that they leave. -/
def SweepsTo (Q : List Turn → World (F × History) → Prop) (phase : Phase)
    (operation : Instance (World (F × History)) → Act (World (F × History)) Unit) (n : Nat)
    (is : List (Instance (World F))) (w : World (F × History)) : Prop :=
  ∃ turns, Turn.All phase is.length turns ∧
    Q turns (phase.sweep operation (observedFrom n is) w).2 ∧
    (phase.sweep operation (observedFrom n is) w).1 = Turn.errorsOf phase (is.map (·.id)) turns ∧
    (phase.sweep operation (observedFrom n is) w).2.history =
      w.history ++ Turn.historyOf phase n turns

/-- All turns of a phase, by induction on the instances. What is true of the turns so far and of the
    world that they leave stays true with one more turn. -/
theorem sweep_to {I : List Turn → World (F × History) → Prop} (is : List (Instance (World F)))
    (hstep : ∀ i ∈ is, ∀ n turns w, I turns w → ∃ t, IsTurn phase operation n i w t ∧
      I (turns ++ [t]) (phase.visit operation (i.observed n) w).2)
    (n : Nat) {w : World (F × History)} (h : I [] w) : SweepsTo I phase operation n is w := by
  induction is generalizing n w I with
  | nil => exact ⟨[], ⟨rfl, by simp⟩, h, rfl, (List.append_nil _).symm⟩
  | cons i rest ih =>
    obtain ⟨t, hturn, h₁⟩ := hstep i List.mem_cons_self n [] w h
    obtain ⟨turns, ⟨hlength, hall⟩, h₂, hothers, hnoted⟩ :=
      ih (I := fun turns w' => I (t :: turns) w')
        (fun j hj n turns w₁ => hstep j (List.mem_cons_of_mem _ hj) n (t :: turns) w₁) (n + 1) h₁
    refine ⟨t :: turns, ⟨by rw [List.length_cons, List.length_cons, hlength],
      by simpa [hturn.ofPhase] using hall⟩, h₂, ?_, ?_⟩
    · rw [observedFrom, Phase.sweep_cons, hturn.errors, hothers]
      rfl
    · rw [observedFrom, Phase.sweep_cons, hnoted, hturn.history, List.append_assoc]
      rfl

theorem sweep_turns (h : OperatesIn phase operation) (is : List (Instance (World F))) (n : Nat)
    (w : World (F × History)) :
    ∃ turns, Turn.All phase is.length turns ∧
      (phase.sweep operation (observedFrom n is) w).1 =
        Turn.errorsOf phase (is.map (·.id)) turns ∧
      (phase.sweep operation (observedFrom n is) w).2.history =
        w.history ++ Turn.historyOf phase n turns := by
  obtain ⟨turns, hall, -, herrors, hhistory⟩ :=
    sweep_to (I := fun _ _ => True) is
      (fun i _ n _ w _ => (visit_turn h i w).imp fun _ hturn => ⟨hturn, trivial⟩) n trivial
  exact ⟨turns, hall, herrors, hhistory⟩

theorem enter_turns (h : OperatesIn phase operation) (p : Progress) (state : State)
    (is : List (Instance (World F))) (w : World (F × History)) :
    ∃ turns, Turn.All phase is.length turns ∧
      (p.enter state phase operation (observedFrom 0 is) w).1 =
        ⟨p.transitions ++ [state], p.errors ++ Turn.errorsOf phase (is.map (·.id)) turns⟩ ∧
      (p.enter state phase operation (observedFrom 0 is) w).2.history =
        w.history ++ Turn.historyOf phase 0 turns := by
  obtain ⟨turns, hall, herrors, hhistory⟩ := sweep_turns h is 0 w
  rw [enter_eq, herrors]
  exact ⟨turns, hall, rfl, hhistory⟩

end Turns

/-! ### What is reported -/

theorem errorsOf_eq_nil (phase : Phase) {ids : List Identifier} {turns : List Turn}
    (hlength : turns.length = ids.length) :
    Turn.errorsOf phase ids turns = [] ↔ ¬ ∃ t ∈ turns, t.Failed := by
  induction ids generalizing turns with
  | nil =>
    obtain rfl := List.eq_nil_of_length_eq_zero hlength
    simp [Turn.errorsOf]
  | cons instanceId ids ih =>
    obtain ⟨t, rest, rfl⟩ := List.exists_cons_of_length_eq_add_one hlength
    have hrest := ih (Nat.succ.inj hlength)
    rw [Turn.errorsOf, List.append_eq_nil_iff, hrest]
    rcases t with ⟨answer, calls, halt | _⟩ <;> simp [Turn.errorsOfOne, Turn.Failed]

theorem phase_of_mem_errorsOf {phase : Phase} {ids : List Identifier} {turns : List Turn}
    {e : PhaseError} (h : e ∈ Turn.errorsOf phase ids turns) : e.phase = phase := by
  fun_induction Turn.errorsOf phase ids turns with
  | case1 instanceId ids t rest ih =>
    rcases List.mem_append.mp h with h | h
    · unfold Turn.errorsOfOne at h
      split at h
      · cases h
      · rw [List.mem_singleton.mp h]
    · exact ih h
  | case2 => cases h

theorem blocking_errorsOf {phase : Phase} (h : phase.isAdvisory = false) (ids : List Identifier)
    (turns : List Turn) :
    (Turn.errorsOf phase ids turns).blocking = Turn.errorsOf phase ids turns ∧
      (Turn.errorsOf phase ids turns).advisory = [] := by
  refine ⟨List.filter_eq_self.mpr fun e he => ?_, List.filter_eq_nil_iff.mpr fun e he => ?_⟩
  all_goals rw [phase_of_mem_errorsOf he, h]; decide

theorem advisory_errorsOf (ids : List Identifier) (turns : List Turn) :
    (Turn.errorsOf .cleanup ids turns).blocking = [] ∧
      (Turn.errorsOf .cleanup ids turns).advisory = Turn.errorsOf .cleanup ids turns := by
  refine ⟨List.filter_eq_nil_iff.mpr fun e he => ?_, List.filter_eq_self.mpr fun e he => ?_⟩
  all_goals rw [phase_of_mem_errorsOf he]; decide

/-- Cleaning up is the only phase of a plan whose failures do not make a run fail. -/
structure Blocks (plan : Plan) : Prop where
  lock : plan.lock.isAdvisory = false
  data : plan.data.isAdvisory = false
  unlock : plan.unlock.isAdvisory = false

/-- What has happened after a walk. -/
def progressOf (plan : Plan) (ids : List Identifier) (k : Walk) : Progress :=
  ⟨k.states plan, k.blocking plan ids ++ k.advisory ids⟩

theorem blocking_progressOf {plan : Plan} (h : Blocks plan) (ids : List Identifier) (k : Walk) :
    (progressOf plan ids k).errors.blocking = k.blocking plan ids ∧
      (progressOf plan ids k).errors.advisory = k.advisory ids := by
  have hlock := blocking_errorsOf h.lock ids k.lock
  have hdata := blocking_errorsOf h.data ids k.moved
  have hunlock := blocking_errorsOf h.unlock ids k.unlock
  have hcleanup := advisory_errorsOf ids k.cleanup
  unfold PhaseErrors.blocking PhaseErrors.advisory at *
  simp only [progressOf, Walk.blocking, Walk.advisory, List.filter_append, hlock.1, hlock.2,
    hdata.1, hdata.2, hunlock.1, hunlock.2, hcleanup.1, hcleanup.2, List.append_nil,
    List.nil_append, and_self]

/-- A workflow ends with the report of its walk. -/
theorem finish_progressOf {plan : Plan} (h : Blocks plan) (ids : List Identifier) (k : Walk)
    (path : String) :
    (progressOf plan ids k).finish (ε := ε) path = k.ending plan ids path := by
  obtain ⟨hblocking, hadvisory⟩ := blocking_progressOf h ids k
  unfold Progress.finish Progress.isBlocked Walk.ending
  simp only [hblocking, hadvisory]
  cases k.blocking plan ids <;> rfl

theorem isBlocked_progressOf {plan : Plan} (h : Blocks plan) (ids : List Identifier) (k : Walk) :
    (progressOf plan ids k).isBlocked = true ↔ k.blocking plan ids ≠ [] := by
  unfold Progress.isBlocked
  rw [(blocking_progressOf h ids k).1]
  cases k.blocking plan ids <;> simp

/-- What is reported of the data phase is one failure for each of its turns that failed. -/
theorem blocking_data (plan : Plan) (hlock : plan.lock ≠ plan.data)
    (hunlock : plan.unlock ≠ plan.data) (ids : List Identifier) (k : Walk) :
    (k.blocking plan ids).filter (·.phase = plan.data) = Turn.errorsOf plan.data ids k.moved := by
  have hnone {phase : Phase} (hphase : phase ≠ plan.data) (turns : List Turn) :
      (Turn.errorsOf phase ids turns).filter (·.phase = plan.data) = [] := by
    refine List.filter_eq_nil_iff.mpr fun e he => ?_
    rw [phase_of_mem_errorsOf he]
    simpa using hphase
  have hall : (Turn.errorsOf plan.data ids k.moved).filter (·.phase = plan.data) =
      Turn.errorsOf plan.data ids k.moved :=
    List.filter_eq_self.mpr fun e he => by simp [phase_of_mem_errorsOf he]
  rw [Walk.blocking, List.filter_append, List.filter_append, hnone hlock, hnone hunlock, hall,
    List.append_nil, List.nil_append]

/-- A report names the failures of its walk. -/
theorem errors_of_ending {plan : Plan} {ids : List Identifier} {k : Walk} {path : String}
    {report : Report}
    (h : k.ending (ε := ε) plan ids path = .ok report ∨
      k.ending (ε := ε) plan ids path = .error (.failed report)) :
    report.errors = k.blocking plan ids := by
  unfold Walk.ending at h
  split at h
  · rename_i hfree
    rcases h with h | h
    · cases h
      rw [hfree]
    · cases h
  · rcases h with h | h
    · cases h
    · cases h
      rfl

/-! ### The walk of a plan -/

/-- The operations of a plan are those of its phases. -/
structure Operates (F : Type) (plan : Plan)
    (moveData : Instance (World (F × History)) → Act (World (F × History)) Unit) : Prop where
  lock : OperatesIn (F := F) plan.lock plan.lock.own
  data : OperatesIn plan.data moveData
  unlock : OperatesIn (F := F) plan.unlock plan.unlock.own

theorem moved_turns {Q : List Turn → World (F × History) → Prop} (policy : Policy) {plan : Plan}
    {moveData : Instance (World (F × History)) → Act (World (F × History)) Unit}
    {is : List (Instance (World F))} {w : World (F × History)}
    (h : SweepsTo Q plan.data moveData 0 is w) (hnothing : Q [] w) {lock : List Turn}
    (hlength : lock.length = is.length) {p : Progress}
    (hp : p.errors = Turn.errorsOf plan.lock (is.map (·.id)) lock) :
    ∃ data : Option (List Turn),
      (∀ turns, data = some turns → Turn.All plan.data is.length turns) ∧
      Q (data.getD []) (moved policy plan moveData (observedFrom 0 is) (p, w)).2 ∧
      (data = none ↔ policy = .failFast ∧ ∃ t ∈ lock, t.Failed) ∧
      (moved policy plan moveData (observedFrom 0 is) (p, w)).1 =
        ⟨p.transitions ++ (if data.isSome then [plan.dataState] else []),
          p.errors ++ Turn.errorsOf plan.data (is.map (·.id)) (data.getD [])⟩ ∧
      (moved policy plan moveData (observedFrom 0 is) (p, w)).2.history =
        w.history ++ Turn.historyOf plan.data 0 (data.getD []) := by
  have hfailed : p.errors.isEmpty = false ↔ ∃ t ∈ lock, t.Failed := by
    have hids : lock.length = (is.map (·.id)).length := by
      rw [hlength, List.length_map]
    have hnone := errorsOf_eq_nil plan.lock hids
    rw [List.isEmpty_eq_false_iff, hp, Ne, hnone, Classical.not_not]
  -- The data phase is left out exactly when the policy says so and locking has failed.
  have hskip : (decide (policy = .failFast) && !p.errors.isEmpty) = true ↔
      policy = .failFast ∧ ∃ t ∈ lock, t.Failed := by
    rw [← hfailed]
    simp
  unfold moved
  by_cases hleft : policy = .failFast ∧ ∃ t ∈ lock, t.Failed
  · rw [if_pos (hskip.mpr hleft)]
    exact ⟨none, by simp, hnothing, by simpa using hleft, by simp [Turn.errorsOf],
      by simp [Turn.historyOf]⟩
  · obtain ⟨turns, hall, hQ, hvalue, hhistory⟩ := h
    rw [if_neg fun hc => hleft (hskip.mp hc), enter_eq, hvalue]
    refine ⟨some turns, ?_, hQ, by simpa using hleft, rfl, hhistory⟩
    intro turns' heq
    cases heq
    exact hall

/-- What a run does is a walk. What is known of the turns of the data phase has to be known of
    them in the world in which locking is over. -/
theorem drive_walk_to {Q : List Turn → World (F × History) → Prop} (policy : Policy) {plan : Plan}
    {moveData : Instance (World (F × History)) → Act (World (F × History)) Unit}
    (hlockOf : OperatesIn (F := F) plan.lock plan.lock.own)
    (hunlockOf : OperatesIn (F := F) plan.unlock plan.unlock.own)
    {is : List (Instance (World F))} {w : World (F × History)}
    (hdataOf : SweepsTo Q plan.data moveData 0 is
      (Progress.start.enter .locking plan.lock plan.lock.own (observedFrom 0 is) w).2)
    (hnothing : Q []
      (Progress.start.enter .locking plan.lock plan.lock.own (observedFrom 0 is) w).2) :
    ∃ k : Walk, k.Of policy plan is.length ∧
      Q k.moved (moved policy plan moveData (observedFrom 0 is)
        (Progress.start.enter .locking plan.lock plan.lock.own (observedFrom 0 is) w)).2 ∧
      (drive policy plan moveData (observedFrom 0 is) w).1 =
        progressOf plan (is.map (·.id)) k ∧
      (drive policy plan moveData (observedFrom 0 is) w).2.history =
        w.history ++ k.history plan := by
  -- The four states, one behind the other: what one of them leaves behind is all that the next one
  -- depends on.
  rw [drive_eq]
  obtain ⟨lock, hlock, hlocked, hlockNotes⟩ := enter_turns hlockOf .start .locking is w
  generalize Progress.start.enter .locking plan.lock plan.lock.own (observedFrom 0 is) w = locked
    at hlocked hlockNotes hdataOf hnothing
  obtain ⟨p₁, w₁⟩ := locked
  obtain rfl : p₁ = ⟨[.notStarted, .locking], Turn.errorsOf plan.lock (is.map (·.id)) lock⟩ :=
    hlocked
  obtain ⟨data, hdata, hQ, hleft, hmoved, hmovedNotes⟩ := moved_turns policy hdataOf hnothing
    hlock.1 (p := ⟨[.notStarted, .locking], Turn.errorsOf plan.lock (is.map (·.id)) lock⟩) rfl
  simp only
  generalize moved policy plan moveData (observedFrom 0 is) _ = moved at hQ hmoved hmovedNotes
  obtain ⟨p₂, w₂⟩ := moved
  obtain rfl : p₂ = _ := hmoved
  obtain ⟨unlock, hunlock, hunlocked, hunlockNotes⟩ := enter_turns hunlockOf _ .unlocking is w₂
  rw [hunlocked]
  generalize (Progress.enter _ .unlocking plan.unlock plan.unlock.own (observedFrom 0 is) w₂).2 = w₃
    at hunlockNotes
  obtain ⟨cleanup, hcleanup, hcleaned, hcleanNotes⟩ := enter_turns
    (operated_own (F := F) .cleanup (by decide) (by decide)) _ .cleanup is w₃
  rw [hcleaned, hcleanNotes]
  refine ⟨⟨lock, data, unlock, cleanup⟩, ⟨hlock, hdata, hunlock, hcleanup, hleft⟩, hQ, ?_, ?_⟩
  · simp [progressOf, Walk.states, Walk.blocking, Walk.advisory, Walk.moved]
  · rw [hunlockNotes, hmovedNotes, hlockNotes]
    simp [Walk.history, Walk.moved]

theorem drive_walk_of {P : Turn → Prop} (policy : Policy) {plan : Plan}
    {moveData : Instance (World (F × History)) → Act (World (F × History)) Unit}
    (hlockOf : OperatesIn (F := F) plan.lock plan.lock.own)
    (hunlockOf : OperatesIn (F := F) plan.unlock plan.unlock.own)
    {is : List (Instance (World F))} {w : World (F × History)}
    (hdataOf : SweepsBy P plan.data moveData 0 is
      (Progress.start.enter .locking plan.lock plan.lock.own (observedFrom 0 is) w).2) :
    ∃ k : Walk, k.Of policy plan is.length ∧ (∀ t ∈ k.moved, P t) ∧
      (drive policy plan moveData (observedFrom 0 is) w).1 =
        progressOf plan (is.map (·.id)) k ∧
      (drive policy plan moveData (observedFrom 0 is) w).2.history =
        w.history ++ k.history plan :=
  drive_walk_to (Q := fun turns _ => ∀ t ∈ turns, P t) policy hlockOf hunlockOf hdataOf
    (by simp)

theorem drive_walk {policy : Policy} {plan : Plan}
    {moveData : Instance (World (F × History)) → Act (World (F × History)) Unit}
    (h : Operates F plan moveData) (is : List (Instance (World F))) (w : World (F × History)) :
    ∃ k : Walk, k.Of policy plan is.length ∧
      (drive policy plan moveData (observedFrom 0 is) w).1 =
        progressOf plan (is.map (·.id)) k ∧
      (drive policy plan moveData (observedFrom 0 is) w).2.history =
        w.history ++ k.history plan := by
  obtain ⟨turns, hall, herrors, hhistory⟩ := sweep_turns h.data is 0
    (Progress.start.enter .locking plan.lock plan.lock.own (observedFrom 0 is) w).2
  obtain ⟨k, hof, -, hwalk⟩ := drive_walk_of (P := fun _ => True) policy h.lock h.unlock
    ⟨turns, hall, fun _ _ => trivial, herrors, hhistory⟩
  exact ⟨k, hof, hwalk⟩

/-! ### The two workflows -/

theorem blocks_backupPlan : Blocks backupPlan :=
  ⟨rfl, rfl, rfl⟩

theorem blocks_restorePlan : Blocks restorePlan :=
  ⟨rfl, rfl, rfl⟩

theorem operates_backupPlan (a : Artifact) : Operates F backupPlan (backUp a) where
  lock := operated_own .preBackupLock (by decide) (by decide)
  data := operated_backUp a
  unlock := operated_own .postBackupUnlock (by decide) (by decide)

theorem operates_restorePlan (a : Artifact) : Operates F restorePlan (putBack a) where
  lock := operated_own .preRestoreLock (by decide) (by decide)
  data := operated_putBack a
  unlock := operated_own .postRestoreUnlock (by decide) (by decide)

end Workflow

end DeploymentBackup
