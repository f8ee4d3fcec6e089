import DeploymentBackup.Inventory.Lookup
import DeploymentBackup.Proofs.Remote.Commands
import DeploymentBackup.Proofs.Remote.Scripts
import DeploymentBackup.Proofs.Remote.Storage

namespace DeploymentBackup

open Text

/-!
# Operations on a host, one after the other

The first operation that needs the jobs of a host looks them up, and as long as this fails the next
one tries again. From the look-up that succeeds on, everything is answered from its jobs: what locks
a job and what unlocks it have the same jobs in view, whatever the scripts on the host have become.

* `Operation`, `Answer`, `Instance.perform` — what an instance is asked.
* `Remote.Host.turns` — operations one after the other, with what they issue.
* `Remote.Host.Remembers` — a host whose memory is its own.
* `Remote.Host.Serves` — an answer from jobs that are known.
* `Remote.Host.Tries`, `Remote.Host.Learns` — turns in which the jobs are looked up.
* `Remote.Host.turns_look_up` — any operations on a host.
-/

/-- An operation of an instance. -/
inductive Operation
  | capable (phase : Phase)
  | act (phase : Phase)
  | blobs
deriving DecidableEq

/-- What an operation gives. -/
inductive Answer (W : Type)
  | capable (able : Bool)
  | acted
  | blobs (held : List (Blob W))

/-- An instance performs an operation. -/
def Instance.perform {W : Type} (i : Instance W) : Operation → Act W (Answer W)
  | .capable phase => do return .capable (← i.capable phase)
  | .act phase => do
    i.act phase
    return .acted
  | .blobs => do return .blobs (← i.blobs)

namespace Remote

variable {W : Type}

/-! ### Turns -/

/-- An operation that was performed. -/
structure Turn (W : Type) where
  operation : Operation
  before : W
  answer : Except Halt (Answer W)
  issued : List Issued
  after : W

namespace Host

/-- The turn in which a host performs an operation. -/
def turn (h : Host W) (o : Operation) (w : W) : Turn W where
  operation := o
  before := w
  answer := (h.toInstance.perform o w).1
  issued := (h.noting.toInstance.perform o (w, [])).2.2
  after := (h.toInstance.perform o w).2

/-- The turns in which a host performs operations one after the other. -/
def turns (h : Host W) : List Operation → W → List (Turn W)
  | [], _ => []
  | o :: rest, w => h.turn o w :: h.turns rest (h.turn o w).after

/-- What a host is told to remember is what it knows, and commands do not change it. -/
structure Remembers (h : Host W) : Prop where
  known_remember : ∀ jobs w, h.known (h.remember jobs w) = some jobs
  known_run : ∀ command w, h.known (h.runner.run command w).2 = h.known w

end Host

end Remote

/-- A host for rehearsals remembers. -/
theorem Rehearsal.Script.remembers_host (id : Identifier) (l : Remote.Layout) :
    (Rehearsal.Script.host id l).Remembers where
  known_remember := fun _ _ => rfl
  known_run := fun command s => by
    show (s.answer command []).2.jobs = s.jobs
    rw [answer]
    cases s.responses <;> rfl

/-- The instances of an inventory remember, each its own jobs. -/
theorem Inventory.Directory.remembers_hostOf (s : Inventory.Directory) (number : Nat)
    (l : Inventory.Listed) : (s.hostOf number l).Remembers where
  known_remember := fun _ _ => List.lookup_cons_self
  known_run := fun _ _ => rfl

namespace Remote

/-! ### Answers -/

/-- Jobs are capable of a phase: one of them has the script of the phase, or data to clean up. -/
def able (jobs : List Job) (phase : Phase) : Bool :=
  match Script.ofPhase? phase with
  | some s => jobs.any (·.has s)
  | none => jobs.any (·.holdsData)

namespace Host

/-- The commands of a phase. -/
def duties (h : Host W) (jobs : List Job) (phase : Phase) : List Command :=
  match Script.ofPhase? phase with
  | some s => h.commands s jobs
  | none => [.removeAll h.layout]

/-- The commands of a phase are issued in their order: all of them if the phase unlocks, and
    otherwise up to the first failure. -/
def Fulfils (h : Host W) (jobs : List Job) (phase : Phase) (issued : List Issued) : Prop :=
  ∃ ran left, h.duties jobs phase = ran ++ left ∧
    issued.map (·.command) = ran.map Command.render ∧
    (phase.unlocks = true → left = []) ∧
    (phase.unlocks = false → ∀ i ∈ issued.dropLast, i.failure? = none) ∧
    (left ≠ [] → ∃ i, issued.getLast? = some i ∧ i.failure? ≠ none)

/-- An answer of a host that knows its jobs: capability and blobs are seen from the jobs, and a
    phase issues its commands and reports their first failure. -/
def Serves (h : Host W) (jobs : List Job) (o : Operation) (issued : List Issued)
    (answer : Except Halt (Answer W)) : Prop :=
  match o with
  | .capable phase => issued = [] ∧ answer = .ok (.capable (able jobs phase))
  | .act phase =>
    answer = ((outcomeOf issued).map fun _ => Answer.acted).mapError .fault ∧
      h.Fulfils jobs phase issued
  | .blobs =>
    issued = [] ∧
      answer = .ok (.blobs ((h.places jobs).map fun place => blobAt h.runner place.1 place.2))

variable {h : Host W} {jobs : List Job} {o : Operation} {phase : Phase} {w after : W}
  {issued : List Issued} {answer : Except Halt (Answer W)}

/-- The commands of a phase are run. -/
def work (h : Host W) (jobs : List Job) (phase : Phase) : Act W Unit :=
  if phase.unlocks then runAll h.runner (h.duties jobs phase)
  else runUntilFailure h.runner (h.duties jobs phase)

/-- What a host does once its jobs are there. -/
def serve (h : Host W) (jobs : List Job) : Operation → Act W (Answer W)
  | .capable phase => pure (.capable (able jobs phase))
  | .act phase => do
    h.work jobs phase
    return .acted
  | .blobs => pure (.blobs ((h.places jobs).map fun place => blobAt h.runner place.1 place.2))

theorem act_eq_work {s : Script} {phase : Phase} (hs : Script.ofPhase? phase = some s) :
    h.act phase = h.jobs >>= fun jobs => h.work jobs phase := by
  simp only [work, duties, hs]
  cases hunlocks : phase.unlocks with
  | true => exact act_eq_runAll hs hunlocks
  | false => exact act_eq_runUntilFailure hs hunlocks

/-- The jobs play no part when a host is cleaned up. -/
theorem perform_cleanup (h : Host W) (jobs : List Job) :
    h.toInstance.perform (.act .cleanup) = h.serve jobs (.act .cleanup) := rfl

/-- For anything else the jobs have to be there. -/
theorem perform_eq (ho : o ≠ .act .cleanup) :
    h.toInstance.perform o = h.jobs >>= fun jobs => h.serve jobs o := by
  cases o with
  | capable phase =>
    show ((h.capable phase >>= fun able => pure (.capable able)) : Act W (Answer W)) = _
    rw [Host.capable, Act.bind_assoc]
    refine congrArg _ (funext fun jobs => ?_)
    rw [serve, able]
    cases Script.ofPhase? phase <;> rfl
  | act phase =>
    show ((h.act phase >>= fun _ => pure .acted) : Act W (Answer W)) = _
    cases hs : Script.ofPhase? phase with
    | none =>
      -- Cleaning up is the one phase without a script.
      have hcleanup : phase = .cleanup := by cases phase <;> first | rfl | cases hs
      exact absurd (congrArg Operation.act hcleanup) ho
    | some s =>
      rw [act_eq_work hs, Act.bind_assoc]
      rfl
  | blobs =>
    funext w
    show ((h.blobs >>= fun held => pure (.blobs held)) : Act W (Answer W)) w = _
    rw [Act.bind_apply, Act.bind_apply]
    -- The blobs come from the jobs alone, so nothing more is issued for them.
    rcases hjobs : h.jobs w with ⟨halt | jobs, after⟩
    · rw [Host.blobs, Act.bind_apply, hjobs]
    · rw [blobs_eq hjobs]
      rfl

theorem issues_work (h : Host W) (jobs : List Job) (phase : Phase) (w : W) :
    ∃ issued, Act.Issues (h.noting.work jobs phase) (h.work jobs phase) w issued ∧
      (h.work jobs phase w).1 = (outcomeOf issued).mapError .fault ∧
      h.Fulfils jobs phase issued := by
  have hduties : h.noting.duties jobs phase = h.duties jobs phase := rfl
  rw [work, work, hduties]
  cases hunlocks : phase.unlocks with
  | true =>
    obtain ⟨issued, hcommands, hissues, houtcome⟩ := issues_runAll h.runner (h.duties jobs phase) w
    refine ⟨issued, hissues, houtcome, _, [], (List.append_nil _).symm, hcommands, ?_⟩
    simp [hunlocks]
  | false =>
    obtain ⟨issued, ran, left, hsplit, hcommands, hissues, houtcome, hdone, hleft⟩ :=
      issues_runUntilFailure h.runner (h.duties jobs phase) w
    refine ⟨issued, hissues, houtcome, ran, left, hsplit, hcommands, ?_, fun _ => hdone, hleft⟩
    simp [hunlocks]

/-- What a host does with jobs that are there is an answer from them. -/
theorem serves_serve (h : Host W) (jobs : List Job) (o : Operation) (w : W) :
    ∃ issued, h.Serves jobs o issued (h.serve jobs o w).1 ∧
      ∀ notes, (h.noting.serve jobs o (w, notes)).2 = ((h.serve jobs o w).2, notes ++ issued) := by
  cases o with
  | capable phase => exact ⟨[], ⟨rfl, rfl⟩, fun notes => by rw [List.append_nil]; rfl⟩
  | act phase =>
    obtain ⟨issued, hissues, houtcome, hfulfils⟩ := h.issues_work jobs phase w
    refine ⟨issued, ⟨?_, hfulfils⟩, fun notes => ?_⟩
    · rw [serve, Act.bind_apply]
      rcases hwork : h.work jobs phase w with ⟨outcome, after⟩
      rw [hwork] at houtcome
      obtain rfl : outcome = (outcomeOf issued).mapError .fault := houtcome
      cases outcomeOf issued <;> rfl
    · rw [serve, serve, Act.bind_apply, Act.bind_apply, hissues]
      rcases h.work jobs phase w with ⟨halt | _, after⟩ <;> rfl
  | blobs => exact ⟨[], ⟨rfl, rfl⟩, fun notes => by rw [List.append_nil]; rfl⟩

/-! ### What is remembered -/

section Keeps

variable {α β : Type} {x : Act W α}

/-- An action changes nothing about what is known of the jobs. -/
def Keeps (h : Host W) (x : Act W α) : Prop :=
  ∀ w, h.known (x w).2 = h.known w

theorem keeps_pure (a : α) : h.Keeps (pure a) := fun _ => rfl

theorem keeps_ofExcept (result : Except Instance.Fault α) : h.Keeps (Act.ofExcept result) := by
  intro w
  rw [Act.ofExcept_apply]

theorem Keeps.bind {f : α → Act W β} (hx : h.Keeps x) (hf : ∀ a, h.Keeps (f a)) :
    h.Keeps (x >>= f) := by
  intro w
  have hw := hx w
  rw [Act.bind_apply]
  rcases hrun : x w with ⟨halt | a, after⟩
  · rw [hrun] at hw
    exact hw
  · rw [hrun] at hw
    exact (hf a after).trans hw

theorem Keeps.attempt (hx : h.Keeps x) : h.Keeps x.attempt := by
  intro w
  rw [← hx w, Act.attempt]
  rcases x w with ⟨(cause | payload) | a, after⟩ <;> rfl

end Keeps

namespace Remembers

variable (hr : h.Remembers)

include hr

theorem known_happens {es : List Exchange} (hes : Happens h.runner w es after) :
    h.known after = h.known w := by
  induction es generalizing w with
  | nil => rw [show w = after from hes]
  | cons e es ih =>
    obtain ⟨next, hrun, hrest⟩ := hes
    have hnext := hr.known_run e.command.render w
    rw [hrun] at hnext
    exact (ih hrest).trans hnext

theorem keeps_checked (c : Command) : h.Keeps (checked h.runner c) := by
  intro w
  rcases checked_ends h.runner c w with ⟨text, -, hchecked⟩ | ⟨cause, -, hchecked⟩
  · rw [hchecked, hr.known_run]
  · rw [hchecked, hr.known_run]

theorem keeps_runUntilFailure (commands : List Command) :
    h.Keeps (runUntilFailure h.runner commands) := by
  induction commands with
  | nil => exact keeps_pure ()
  | cons c rest ih => exact (hr.keeps_checked c).bind fun _ => ih

theorem keeps_runAll (commands : List Command) : h.Keeps (runAll h.runner commands) := by
  induction commands with
  | nil => exact keeps_pure ()
  | cons c rest ih =>
    exact (hr.keeps_checked c).attempt.bind fun _ => ih.attempt.bind fun _ => keeps_ofExcept _

theorem keeps_serve (jobs : List Job) (o : Operation) : h.Keeps (h.serve jobs o) := by
  cases o with
  | capable phase => exact keeps_pure _
  | act phase =>
    refine Keeps.bind ?_ fun _ => keeps_pure _
    rw [work]
    split
    · exact hr.keeps_runAll _
    · exact hr.keeps_runUntilFailure _
  | blobs => exact keeps_pure _

end Remembers

/-! ### What an answer issues -/

/-- A phase looks nothing up when its jobs were found. -/
theorem Fulfils.not_isLookUp (hfulfils : h.Fulfils jobs phase issued) (hfound : h.Finds jobs)
    {i : Issued} (hi : i ∈ issued) : ¬ IsLookUp i.command := by
  obtain ⟨ran, left, hduties, hcommands, -⟩ := hfulfils
  have hcommand := List.mem_map_of_mem (f := Issued.command) hi
  rw [hcommands] at hcommand
  obtain ⟨c, hc, hrender⟩ := List.mem_map.mp hcommand
  have hduty : c ∈ h.duties jobs phase := hduties ▸ List.mem_append_left left hc
  rw [← hrender]
  cases hs : Script.ofPhase? phase with
  | none =>
    rw [duties, hs] at hduty
    rw [List.mem_singleton.mp hduty]
    exact not_isLookUp_removeAll h.layout
  | some s =>
    rw [duties, hs] at hduty
    obtain ⟨job, hjob, hscript⟩ := List.mem_filterMap.mp hduty
    obtain ⟨path, hpath, rfl⟩ := Option.map_eq_some_iff.mp hscript
    -- No phase is one of metadata scripts.
    have hmetadata : s ≠ .metadata := by
      rintro rfl
      cases phase <;> cases hs
    rw [hfound.path_eq hjob hpath]
    exact not_isLookUp_script h.layout job hmetadata _ _

/-- Jobs are capable of a phase with a script exactly when the phase issues a command. -/
theorem Fulfils.able_iff (hfulfils : h.Fulfils jobs phase issued) (hphase : phase ≠ .cleanup) :
    able jobs phase = true ↔ issued ≠ [] := by
  obtain ⟨ran, left, hduties, hcommands, -, -, hleft⟩ := hfulfils
  obtain ⟨s, hs⟩ : ∃ s, Script.ofPhase? phase = some s := by
    cases phase <;> first | exact ⟨_, rfl⟩ | exact absurd rfl hphase
  have hable : able jobs phase = true ↔ h.duties jobs phase ≠ [] := by
    rw [able, duties, hs]
    simp [commands, List.filterMap_eq_nil_iff, Job.has, Option.isSome_iff_ne_none]
  have hran : issued = [] ↔ ran = [] := by
    rw [← List.map_eq_nil_iff (f := Issued.command), hcommands, List.map_eq_nil_iff]
  rw [hable, not_iff_not, hduties, List.append_eq_nil_iff, hran]
  refine ⟨fun h => h.1, fun hnil => ⟨hnil, ?_⟩⟩
  -- With nothing issued there is no last command to have failed.
  by_contra hne
  obtain ⟨i, hlast, -⟩ := hleft hne
  rw [hran.mpr hnil] at hlast
  cases hlast

/-- A clean-up issues one command. -/
theorem Fulfils.commands_cleanup (hfulfils : h.Fulfils jobs .cleanup issued) :
    issued.map (·.command) = [(Command.removeAll h.layout).render] := by
  obtain ⟨ran, left, hduties, hcommands, -, -, hleft⟩ := hfulfils
  have hduty : [Command.removeAll h.layout] = ran ++ left := hduties
  rcases List.singleton_eq_append_iff.mp hduty with ⟨rfl, hlast⟩ | ⟨rfl, -⟩
  · -- Nothing is left without a failure in front of it.
    obtain ⟨i, hi, -⟩ := hleft (by simp [hlast])
    rw [List.map_eq_nil_iff.mp hcommands] at hi
    cases hi
  · exact hcommands

/-- Nothing is looked up to answer from jobs that were found. -/
theorem Serves.not_isLookUp (hserves : h.Serves jobs o issued answer) (hfound : h.Finds jobs)
    {i : Issued} (hi : i ∈ issued) : ¬ IsLookUp i.command := by
  cases o with
  | capable phase => exact absurd hi (hserves.1 ▸ List.not_mem_nil)
  | act phase => exact hserves.2.not_isLookUp hfound hi
  | blobs => exact absurd hi (hserves.1 ▸ List.not_mem_nil)

/-! ### Turns with known and with unknown jobs -/

/-- A turn that leaves the jobs unknown: a clean-up, which does not need them, or a look-up that
    failed. -/
def Tries (h : Host W) (t : Turn W) : Prop :=
  h.known t.after = none ∧
    (t.operation = .act .cleanup ∧
        t.issued.map (·.command) = [(Command.removeAll h.layout).render] ∨
      t.operation ≠ .act .cleanup ∧ ∃ es cause, h.LookedUp t.before es (.error cause) t.after ∧
        t.issued = es.map Exchange.issued ∧ t.answer = .error (.fault cause))

/-- A turn that begins with the look-up of jobs; commands of its own come behind it. -/
def Learns (h : Host W) (jobs : List Job) (own : List Issued) (t : Turn W) : Prop :=
  t.operation ≠ .act .cleanup ∧ ∃ es found, h.LookedUp t.before es (.ok jobs) found ∧
    t.issued = es.map Exchange.issued ++ own

theorem turn_cleanup (hr : h.Remembers) (jobs : List Job) (w : W) :
    h.Serves jobs (.act .cleanup) (h.turn (.act .cleanup) w).issued
        (h.turn (.act .cleanup) w).answer ∧
      h.known (h.turn (.act .cleanup) w).after = h.known w := by
  obtain ⟨issued, hserves, hnoted⟩ := h.serves_serve jobs (.act .cleanup) w
  have hissued : (h.turn (.act .cleanup) w).issued = issued := by
    rw [turn, perform_cleanup h.noting jobs, hnoted]
    rfl
  rw [hissued, turn, perform_cleanup h jobs]
  exact ⟨hserves, hr.keeps_serve jobs _ w⟩

/-- With the jobs at hand, the rest of a turn is an answer from them. -/
theorem turn_of_jobs (hr : h.Remembers) (ho : o ≠ .act .cleanup) {looked : List Issued}
    (hlooked : Act.Issues h.noting.jobs h.jobs w looked) (hjobs : h.jobs w = (.ok jobs, after)) :
    ∃ own, (h.turn o w).issued = looked ++ own ∧ h.Serves jobs o own (h.turn o w).answer ∧
      h.known (h.turn o w).after = h.known after := by
  obtain ⟨own, hserves, hnoted⟩ := h.serves_serve jobs o after
  have hperform : h.toInstance.perform o w = h.serve jobs o after := by
    rw [perform_eq ho, Act.bind_apply, hjobs]
  have hnoting : h.noting.toInstance.perform o (w, []) = h.noting.serve jobs o (after, looked) := by
    rw [perform_eq ho, Act.bind_apply, hlooked, hjobs]
    rfl
  refine ⟨own, ?_, ?_, ?_⟩
  · rw [turn, hnoting, hnoted]
  · rw [turn, hperform]
    exact hserves
  · rw [turn, hperform]
    exact hr.keeps_serve jobs o after

theorem turn_of_known (hr : h.Remembers) (hknown : h.known w = some jobs) (o : Operation) :
    h.Serves jobs o (h.turn o w).issued (h.turn o w).answer ∧
      h.known (h.turn o w).after = some jobs := by
  by_cases ho : o = .act .cleanup
  · subst ho
    rw [← hknown]
    exact turn_cleanup hr jobs w
  · obtain ⟨own, hissued, hserves, hafter⟩ :=
      turn_of_jobs hr ho (issues_jobs_of_known hknown) (jobs_of_known hknown)
    rw [hissued, List.nil_append, hafter]
    exact ⟨hserves, hknown⟩

theorem turn_of_unknown (hr : h.Remembers) (hunknown : h.known w = none) (o : Operation) :
    h.Tries (h.turn o w) ∨ ∃ jobs own, h.Finds jobs ∧ h.Learns jobs own (h.turn o w) ∧
      h.Serves jobs o own (h.turn o w).answer ∧ h.known (h.turn o w).after = some jobs := by
  by_cases ho : o = .act .cleanup
  · subst ho
    obtain ⟨hserves, hknown⟩ := turn_cleanup hr [] w
    exact .inl ⟨hknown.trans hunknown, .inl ⟨rfl, hserves.2.commands_cleanup⟩⟩
  obtain ⟨es, result, after, hlooks, hlooked, hfound, hfailed⟩ := jobs_of_unknown hunknown
  cases result with
  | error cause =>
    -- The look-up has failed, so that nothing is known and the next turn tries again.
    have hjobs := hfailed cause rfl
    have hperform : h.toInstance.perform o w = (.error (.fault cause), after) := by
      rw [perform_eq ho, Act.bind_apply, hjobs]
    have hnoting : h.noting.toInstance.perform o (w, []) =
        (.error (.fault cause), after, es.map Exchange.issued) := by
      rw [perform_eq ho, Act.bind_apply, hlooked, hjobs]
      rfl
    left
    rw [turn, hperform, hnoting]
    exact ⟨(hr.known_happens hlooks.happens).trans hunknown,
      .inr ⟨ho, es, cause, hlooks, rfl, rfl⟩⟩
  | ok jobs =>
    obtain ⟨hfinds, hjobs⟩ := hfound jobs rfl
    obtain ⟨own, hissued, hserves, hknown⟩ := turn_of_jobs hr ho hlooked hjobs
    exact .inr ⟨jobs, own, hfinds, ⟨ho, es, after, hlooks, hissued⟩, hserves,
      hknown.trans (hr.known_remember jobs after)⟩

/-! ### Any operations -/

/-- Once the jobs are known, every turn is an answer from them. -/
theorem turns_of_known (hr : h.Remembers) (hknown : h.known w = some jobs) (os : List Operation) :
    ∀ t ∈ h.turns os w,
      h.Serves jobs t.operation t.issued t.answer ∧ h.known t.after = some jobs := by
  induction os generalizing w with
  | nil => exact fun t ht => absurd ht List.not_mem_nil
  | cons o os ih =>
    have hturn := turn_of_known hr hknown o
    exact List.forall_mem_cons.mpr ⟨hturn, ih hturn.2⟩

/-- The operations of a host that does not know its jobs yet fall into two parts. Those of the first
    part leave the jobs unknown: each of them is a clean-up, or lists the scripts and then runs the
    metadata scripts of jobs in ascending order, up to the first failure, which is the answer. The
    second part, if there is one, begins with an operation whose look-up succeeds. What this one does
    behind the look-up and all that follows is an answer from the jobs that were found, and no
    command looks jobs up again; so the host is capable of a phase exactly when the phase runs a
    script. -/
theorem turns_look_up (hr : h.Remembers) (hunknown : h.known w = none) (os : List Operation) :
    ∃ tried later, h.turns os w = tried ++ later ∧ (∀ t ∈ tried, h.Tries t) ∧
      (later = [] ∨ ∃ first rest jobs own, later = first :: rest ∧ h.Learns jobs own first ∧
        ∀ t ∈ { first with issued := own } :: rest,
          h.known t.after = some jobs ∧ h.Serves jobs t.operation t.issued t.answer ∧
          (∀ i ∈ t.issued, ¬ IsLookUp i.command) ∧
          ∀ u ∈ { first with issued := own } :: rest, ∀ phase, phase ≠ .cleanup →
            t.operation = .capable phase → u.operation = .act phase →
            (t.answer = .ok (.capable true) ↔ u.issued ≠ [])) := by
  induction os generalizing w with
  | nil => exact ⟨[], [], rfl, by simp, .inl rfl⟩
  | cons o os ih =>
    rcases turn_of_unknown hr hunknown o with
      htries | ⟨jobs, own, hfinds, hlearns, hserves, hknown⟩
    · obtain ⟨tried, later, hturns, htried, hlater⟩ := ih htries.1
      refine ⟨h.turn o w :: tried, later, ?_, List.forall_mem_cons.mpr ⟨htries, htried⟩, hlater⟩
      rw [turns, hturns, List.cons_append]
    · refine ⟨[], h.turns (o :: os) w, rfl, by simp,
        .inr ⟨h.turn o w, _, jobs, own, rfl, hlearns, ?_⟩⟩
      -- Without the commands of the look-up, the first turn is one like those behind it.
      have hall : ∀ t ∈ { h.turn o w with issued := own } :: h.turns os (h.turn o w).after,
          h.Serves jobs t.operation t.issued t.answer ∧ h.known t.after = some jobs :=
        List.forall_mem_cons.mpr ⟨⟨hserves, hknown⟩, turns_of_known hr hknown os⟩
      intro t ht
      obtain ⟨hanswer, hstill⟩ := hall t ht
      refine ⟨hstill, hanswer, fun i hi => hanswer.not_isLookUp hfinds hi, ?_⟩
      intro u hu phase hphase hcapable hact
      have hu := (hall u hu).1
      rw [hact] at hu
      rw [hcapable] at hanswer
      rw [← hu.2.able_iff hphase, hanswer.2]
      simp

/-- A look-up fails, the next one succeeds, and what follows needs none. -/
theorem turns_look_up_again :
    let h := Rehearsal.Script.host (.indexed "redis" "0") ⟨"/jobs", "/data"⟩
    let w : Rehearsal.Script := .of [.ok ⟨⟨1, []⟩, []⟩,
      .ok ⟨⟨0, []⟩, encode "/jobs/a/bin/bbr/pre-backup-lock\n/jobs/a/bin/bbr/metadata\n"⟩,
      .ok ⟨⟨0, []⟩, encode "backup_name: x\n"⟩, .ok ⟨⟨0, []⟩, []⟩]
    let os := [.capable .preBackupLock, .act .preBackupLock, .capable .preBackupLock, .blobs]
    h.Remembers ∧ h.known w = none ∧
      (h.turns os w).map (fun t => t.issued.length) = [1, 3, 0, 0] ∧
      ∃ tried first rest jobs own, h.turns os w = tried ++ first :: rest ∧
        (∀ t ∈ tried, h.Tries t) ∧ h.Learns jobs own first ∧
        ∀ t ∈ rest, h.Serves jobs t.operation t.issued t.answer := by
  intro h w os
  have hr : h.Remembers := Rehearsal.Script.remembers_host _ _
  have hknown : (h.turns os w).map (fun t => (h.known t.after).isSome) =
      [false, true, true, true] := by decide +kernel
  obtain ⟨tried, later, hturns, htried, hlater⟩ := turns_look_up hr (w := w) rfl os
  refine ⟨hr, rfl, by decide +kernel, ?_⟩
  rcases hlater with rfl | ⟨first, rest, jobs, own, rfl, hlearns, hserves⟩
  · rw [List.append_nil] at hturns
    have hnone : ∀ b ∈ (h.turns os w).map (fun t => (h.known t.after).isSome), b = false := by
      rw [hturns]
      exact List.forall_mem_map.mpr fun t ht => by rw [(htried t ht).1]; rfl
    rw [hknown] at hnone
    exact absurd (hnone true (by decide)) (by decide)
  · exact ⟨tried, first, rest, jobs, own, hturns, htried, hlearns,
      fun t ht => (hserves t (.tail _ ht)).2.1⟩

end Host

end Remote

end DeploymentBackup
