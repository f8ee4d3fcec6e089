import DeploymentBackup.Proofs.Identifier
import DeploymentBackup.Proofs.Workflow.Fleet
import DeploymentBackup.Proofs.Workflow.Phases

namespace DeploymentBackup.Workflow

/-!
# Inspections

Before a restore touches anything, every instance is asked for its blobs, and those that hold
some are asked whether they can be restored. The answers are all that the checks depend on.

* `Inspection` — the answers of one instance.
* `Inspection.errorsOf`, `Inspection.present`, `Inspection.stuck` — what the answers of all
  instances mean.
* `inspect_answers` — the outcome of an inspection in terms of the answers.
-/

variable {F ε : Type}

/-- The answers of one instance: its blobs, and whether it can be restored if it was asked. -/
structure Inspection where
  listed : Except Halt (List Identifier)
  restorable : Option (Except Halt Bool)

namespace Inspection

/-- An instance is asked whether it can be restored exactly when it holds a blob. -/
def Of (v : Inspection) : Prop :=
  v.restorable.isSome ↔ ∃ ids, v.listed = .ok ids ∧ ids ≠ []

/-- The calls of an inspection. -/
def calls (v : Inspection) : List Call :=
  .listed v.listed :: v.restorable.toList.map (Call.asked .restore)

/-- The calls of the inspections of the instances from position `n` on. -/
def historyOf : (n : Nat) → List Inspection → History
  | _, [] => []
  | n, v :: rest => v.calls.map (Event.mk n) ++ historyOf (n + 1) rest

/-- The answer that is none. -/
def halt? (v : Inspection) : Option Halt :=
  match v.listed, v.restorable with
  | .error halt, _ => some halt
  | .ok _, some (.error halt) => some halt
  | .ok _, _ => none

/-- The instance holds a blob of its own. -/
def holdsOwnData (v : Inspection) : Bool :=
  match v.listed with
  | .ok ids => ids.any (! ·.isNamed)
  | .error _ => false

/-- The instance holds a blob and cannot be restored. -/
def isStuck (v : Inspection) : Bool :=
  match v.restorable with
  | some (.ok false) => true
  | _ => false

/-- What the answers say about an instance. -/
def holding (instanceId : Identifier) (v : Inspection) : Holding :=
  ⟨instanceId, v.holdsOwnData, v.restorable.isSome,
    match v.restorable with
    | some (.ok restorable) => restorable
    | _ => false⟩

/-- How an inspection ends. -/
def outcome (instanceId : Identifier) (v : Inspection) : Except Halt Holding :=
  match v.halt? with
  | some halt => .error halt
  | none => .ok (v.holding instanceId)

/-- The instances that could not be asked, the first one with the given number. -/
def errorsOf : (number : Nat) → List Identifier → List Inspection → PhaseErrors
  | number, instanceId :: ids, v :: rest =>
    match v.halt? with
    | some halt =>
      ⟨instanceId, .restore, inspectionCause number halt⟩ :: errorsOf (number + 1) ids rest
    | none => errorsOf (number + 1) ids rest
  | _, _, _ => []

/-- The instances with answers of some kind, in their order. -/
def select (p : Inspection → Bool) : List Identifier → List Inspection → List Identifier
  | instanceId :: ids, v :: rest =>
    if p v then instanceId :: select p ids rest else select p ids rest
  | _, _ => []

/-- The instances that hold a blob of their own. -/
def present (ids : List Identifier) (vs : List Inspection) : List Identifier :=
  select holdsOwnData ids vs

/-- The instances that hold a blob and cannot be restored. -/
def stuck (ids : List Identifier) (vs : List Inspection) : List Identifier :=
  select isStuck ids vs

/-- What the answers say about the instances that could be asked. -/
def holdingsOf : List Identifier → List Inspection → List Holding
  | instanceId :: ids, v :: rest =>
    if v.halt?.isNone then v.holding instanceId :: holdingsOf ids rest else holdingsOf ids rest
  | _, _ => []

end Inspection

open Act hiding pure bind

/-! ### The answers of all instances -/

/-- The calls of an inspection are those that its answers tell, and so is its outcome. -/
theorem notes_inspectOne {n : Nat} (i : Instance (World F)) :
    Notes n (inspectOne (i.observed n)) fun calls r =>
      ∃ v : Inspection, v.Of ∧ calls = v.calls ∧ r = v.outcome i.id := by
  -- What is asked about a list of blobs, and what follows from it.
  have hasked (bs : List (Blob (World F))) :
      Notes n (do
        let restorable ← (if (observedBlobs n 0 bs).isEmpty then Pure.pure false
          else (i.observed n).capable .restore : Act _ Bool)
        return (⟨i.id, (observedBlobs n 0 bs).any (! ·.id.isNamed),
          !(observedBlobs n 0 bs).isEmpty, restorable⟩ : Holding))
        fun calls r => ∃ asked, (asked.isSome ↔ bs.map (·.id) ≠ []) ∧
          calls = asked.toList.map (Call.asked .restore) ∧
          r = Inspection.outcome i.id ⟨.ok (bs.map (·.id)), asked⟩ := by
    rw [any_observedBlobs n 0 bs fun blobId => !blobId.isNamed]
    have hown : (bs.map (·.id)).any (! ·.isNamed) = bs.any fun b => !b.id.isNamed :=
      List.any_map
    cases bs with
    | nil => exact (notes_pure _).mono fun calls r h => ⟨none, by simp, h.1, h.2⟩
    | cons b rest =>
      have hcapable : Notes n ((i.observed n).capable .restore) fun calls r =>
        calls = [.asked .restore r] := notes_observed _ _
      refine (hcapable.bind fun restorable => notes_pure _).mono ?_
      rintro calls r (⟨halt, rfl, rfl⟩ | ⟨restorable, -, -, rfl, ⟨rfl, rfl⟩, rfl⟩)
      · exact ⟨some (.error halt), by simp, rfl, rfl⟩
      · refine ⟨some (.ok restorable), by simp, rfl, ?_⟩
        rw [← hown]
        rfl
  rw [inspectOne_eq]
  refine (notes_listed i (Q := fun ids calls r => ∃ asked, (Option.isSome asked ↔ ids ≠ []) ∧
    calls = asked.toList.map (Call.asked .restore) ∧
    r = Inspection.outcome i.id ⟨.ok ids, asked⟩) hasked).mono ?_
  rintro calls r (⟨halt, rfl, rfl⟩ | ⟨ids, -, rfl, asked, hsome, rfl, rfl⟩)
  · exact ⟨⟨.error halt, none⟩, by simp [Inspection.Of], rfl, rfl⟩
  · exact ⟨⟨.ok ids, asked⟩, by simpa [Inspection.Of] using hsome, rfl, rfl⟩

/-- The answers of all instances, by induction on the instances. -/
theorem inspectAll_answers (is : List (Instance (World F))) (number n : Nat)
    (w : World (F × History)) :
    ∃ vs : List Inspection, vs.length = is.length ∧ (∀ v ∈ vs, v.Of) ∧
      (inspectAll number (observedFrom n is) w).1 =
        (Inspection.holdingsOf (is.map (·.id)) vs,
          Inspection.errorsOf number (is.map (·.id)) vs) ∧
      (inspectAll number (observedFrom n is) w).2.history =
        w.history ++ Inspection.historyOf n vs := by
  induction is generalizing number n w with
  | nil => exact ⟨[], rfl, by simp, rfl, (List.append_nil _).symm⟩
  | cons i rest ih =>
    obtain ⟨calls, hhistory, v, hof, rfl, houtcome⟩ := notes_inspectOne (n := n) i w
    obtain ⟨vs, hlength, hall, hothers, hrest⟩ :=
      ih (number + 1) (n + 1) (inspectOne (i.observed n) w).2
    refine ⟨v :: vs, by simp [hlength], by simpa [hof] using hall, ?_, ?_⟩
    · rw [observedFrom, inspectAll_cons]
      simp only [houtcome, hothers, Inspection.outcome, List.map_cons, Inspection.holdingsOf,
        Inspection.errorsOf]
      cases v.halt? <;> rfl
    · rw [observedFrom, inspectAll_cons]
      simp only [hrest, hhistory, List.append_assoc]
      rfl

/-- When all could be asked, the instances with holdings of some kind are those with answers
    of this kind. -/
theorem filter_holdingsOf {p : Holding → Bool} {q : Inspection → Bool}
    (hpq : ∀ (instanceId : Identifier) (v : Inspection),
      v.halt? = none → p (v.holding instanceId) = q v)
    {number : Nat} {ids : List Identifier} {vs : List Inspection}
    (h : Inspection.errorsOf number ids vs = []) :
    ((Inspection.holdingsOf ids vs).filter p).map (·.id) = Inspection.select q ids vs := by
  fun_induction Inspection.errorsOf number ids vs with
  | case1 => cases h
  | case2 number instanceId ids v rest hhalt ih =>
    simp only [Inspection.holdingsOf, Inspection.select, hhalt, Option.isNone_none, if_true,
      List.filter_cons, hpq instanceId v hhalt, ← ih h]
    split
    · rfl
    · rfl
  | case3 number ids vs hnil =>
    unfold Inspection.holdingsOf Inspection.select
    split
    · exact (hnil _ _ _ _ rfl rfl).elim
    · rfl

theorem present_eq {number : Nat} {ids : List Identifier} {vs : List Inspection}
    (h : Inspection.errorsOf number ids vs = []) :
    ((Inspection.holdingsOf ids vs).filter (·.holdsOwnData)).map (·.id) =
      Inspection.present ids vs :=
  filter_holdingsOf (fun _ _ _ => rfl) h

theorem stuck_eq {number : Nat} {ids : List Identifier} {vs : List Inspection}
    (h : Inspection.errorsOf number ids vs = []) :
    ((Inspection.holdingsOf ids vs).filter fun h => h.holdsData && !h.restorable).map (·.id) =
      Inspection.stuck ids vs := by
  refine filter_holdingsOf (fun instanceId v hhalt => ?_) h
  obtain ⟨listed, restorable⟩ := v
  cases listed with
  | error halt => cases hhalt
  | ok ids =>
    rcases restorable with _ | halt | answer
    · rfl
    · cases hhalt
    · cases answer <;> rfl

/-! ### What makes a restore refuse -/

/-- The instances that are asked: all of them, unless they or the artifact are not found. -/
def inspected (d : Deployment (World F) ε) (path : String) (w : World F) : List Identifier :=
  match d.instances w, Artifact.openAt w.disk path with
  | .ok is, .ok _ => is.map (·.id)
  | _, _ => []

/-- The first condition of a restore that fails: the instances are found, the artifact is
    opened, every instance answers, the record can be read, the instances that hold a blob of
    their own are the recorded ones, each as often, and all that hold a blob can be
    restored. -/
def refusal (d : Deployment (World F) ε) (path : String) (w : World F) (vs : List Inspection) :
    Option (Error ε) :=
  match d.instances w with
  | .error cause => some (.deployment cause)
  | .ok is =>
    match Artifact.openAt w.disk path with
    | .error fault => some (.artifact fault)
    | .ok a =>
      let ids := is.map (·.id)
      let present := Inspection.present ids vs
      if Inspection.errorsOf 1 ids vs ≠ [] then some (.discovery (Inspection.errorsOf 1 ids vs))
      else
        match a.metadata w.disk with
        | .error fault => some (.artifact fault)
        | .ok m =>
          let recorded := m.instanceIdentifiers
          if ¬ recorded.Perm present then
            some (.compatibility (difference recorded present) (difference present recorded))
          else if Inspection.stuck ids vs ≠ [] then some (.notRestorable (Inspection.stuck ids vs))
          else none

/-- The workflow went through its phases. -/
def Reports (r : Except (Error ε) Report) : Prop :=
  ∃ report, r = .ok report ∨ r = .error (.failed report)

theorem checks_eq (a : Artifact) (holdings : List Holding) (disk : Disk) :
    (match checkCompatibility (ε := ε) a holdings disk, checkRestorable (ε := ε) holdings with
      | .error e, _ => some e
      | .ok (), .error e => some e
      | .ok (), .ok () => none) =
    match a.metadata disk with
    | .error fault => some (.artifact fault)
    | .ok m =>
      let present := (holdings.filter (·.holdsOwnData)).map (·.id)
      let stuck := (holdings.filter fun h => h.holdsData && !h.restorable).map (·.id)
      if ¬ m.instanceIdentifiers.Perm present then
        some (.compatibility (difference m.instanceIdentifiers present)
          (difference present m.instanceIdentifiers))
      else if stuck ≠ [] then some (.notRestorable stuck) else none := by
  unfold checkCompatibility Artifact.agreesWith Artifact.instanceIdentifiers checkRestorable
  cases a.metadata disk with
  | error fault => rfl
  | ok m =>
    simp only [Except.map]
    -- Both lists are sorted before they are compared, so their order does not matter.
    by_cases hperm : m.instanceIdentifiers.Perm
        ((holdings.filter (·.holdsOwnData)).map (·.id))
    · have hsort := (Identifier.sort_eq_sort_iff _ _).mpr hperm
      simp only [hsort, decide_true, hperm, not_true_eq_false, if_false]
      generalize (holdings.filter fun h => h.holdsData && !h.restorable).map (·.id) = stuck
      cases stuck <;> rfl
    · have hsort := mt (Identifier.sort_eq_sort_iff _ _).mp hperm
      simp only [hsort, decide_false, hperm, not_false_eq_true, if_true]

/-- The checks fail exactly when there is a reason to refuse. -/
theorem checks_refusal {a : Artifact} {is : List (Instance (World F))} {vs : List Inspection}
    {d : Deployment (World F) ε} {path : String} {w : World F}
    (hinstances : d.instances w = .ok is) (hopen : Artifact.openAt w.disk path = .ok a)
    (herrors : Inspection.errorsOf 1 (is.map (·.id)) vs = []) :
    refusal d path w vs =
      match checkCompatibility (ε := ε) a (Inspection.holdingsOf (is.map (·.id)) vs) w.disk,
        checkRestorable (ε := ε) (Inspection.holdingsOf (is.map (·.id)) vs) with
      | .error e, _ => some e
      | .ok (), .error e => some e
      | .ok (), .ok () => none := by
  rw [checks_eq, present_eq herrors, stuck_eq herrors]
  unfold refusal
  simp only [hinstances, hopen, herrors, ne_eq, not_true_eq_false, if_false]

/-- What becomes of a noted restore in the world in which all have answered: it ends, or it
    enters its phases. -/
def Decided (d : Deployment (World F) ε) (policy : Policy) (path : String) (w : World F)
    (vs : List Inspection) (answered : World (F × History)) : Prop :=
  match refusal d path w vs with
  | some e => restore d.observed policy path (w.noting []) = (.error e, answered)
  | none =>
    ∃ is a, d.instances w = .ok is ∧ Artifact.openAt w.disk path = .ok a ∧
      restore d.observed policy path (w.noting []) =
        let driven := drive policy restorePlan (putBack a) (observedFrom 0 is) answered
        (driven.1.finish path, driven.2)

theorem decided_of_opened {d : Deployment (World F) ε} {is : List (Instance (World F))}
    {a : Artifact} (policy : Policy) {path : String} {w : World F}
    (hinstances : d.instances w = .ok is) (hopen : Artifact.openAt w.disk path = .ok a)
    (hkeeps : w.Beside (inspectAll 1 is w).2) :
    ∃ vs answered, vs.length = is.length ∧ (∀ v ∈ vs, v.Of) ∧ answered.disk = w.disk ∧
      answered.history = Inspection.historyOf 0 vs ∧ Decided d policy path w vs answered := by
  obtain ⟨vs, hlength, hof, hvalue, hhistory⟩ := inspectAll_answers is 1 0 (w.noting [])
  obtain ⟨-, hseen⟩ := inspectAll_observed 1 0 is (w.noting [])
  rw [World.seen_noting] at hseen
  have hdisk : (inspectAll 1 (observedFrom 0 is) (w.noting [])).2.disk = w.disk := by
    rw [← World.disk_seen, hseen, hkeeps.disk]
  refine ⟨vs, _, hlength, hof, hdisk, by simpa using hhistory, ?_⟩
  unfold Decided
  rw [restore_eq (observed_instances_ok hinstances) hopen, inspect_eq]
  simp only [hvalue, hdisk]
  -- The checks are made only when every question was answered.
  by_cases herrors : Inspection.errorsOf 1 (is.map (·.id)) vs = []
  · rw [checks_refusal hinstances hopen herrors]
    simp only [herrors, List.isEmpty_nil, if_true]
    cases checkCompatibility (ε := ε) a (Inspection.holdingsOf (is.map (·.id)) vs) w.disk with
    | error e => rfl
    | ok _ =>
      cases checkRestorable (ε := ε) (Inspection.holdingsOf (is.map (·.id)) vs) with
      | error e => rfl
      | ok _ => exact ⟨is, a, hinstances, hopen, rfl⟩
  · have hrefusal : refusal d path w vs =
        some (.discovery (Inspection.errorsOf 1 (is.map (·.id)) vs)) := by
      unfold refusal
      simp only [hinstances, hopen, ne_eq, herrors, not_false_eq_true, if_true]
    simp only [hrefusal, List.isEmpty_iff, herrors, if_false]

/-- Every restore is decided by the answers of its instances. -/
theorem restore_decided (d : Deployment F ε) (policy : Policy) (path : String) (w : World F) :
    ∃ vs answered, vs.length = (inspected d.inFleet path w).length ∧ (∀ v ∈ vs, v.Of) ∧
      answered.disk = w.disk ∧ answered.history = Inspection.historyOf 0 vs ∧
      Decided d.inFleet policy path w vs answered := by
  cases hinstances : d.inFleet.instances w with
  | error cause =>
    -- The run ends before anything is asked.
    refine ⟨[], w.noting [], ?_, by simp, rfl, rfl, ?_⟩
    · rw [inspected, hinstances]
      rfl
    · rw [Decided, refusal, hinstances]
      exact restore_not_found (observed_instances_error hinstances)
  | ok is =>
    cases hopen : Artifact.openAt w.disk path with
    | error fault =>
      refine ⟨[], w.noting [], ?_, by simp, rfl, rfl, ?_⟩
      · rw [inspected, hinstances, hopen]
        rfl
      · rw [Decided, refusal, hinstances]
        simp only [hopen]
        exact restore_not_opened (observed_instances_ok hinstances) hopen
    | ok a =>
      have hkeeps : w.Beside (inspectAll 1 is w).2 := by
        change (d.instances w.fleet).map _ = _ at hinstances
        cases hfleet : d.instances w.fleet with
        | error cause =>
          rw [hfleet] at hinstances
          cases hinstances
        | ok members =>
          rw [hfleet] at hinstances
          cases hinstances
          exact beside_inspectAll members 1 w
      obtain ⟨vs, answered, hlength, h⟩ := decided_of_opened policy hinstances hopen hkeeps
      refine ⟨vs, answered, ?_, h⟩
      rw [hlength, inspected, hinstances, hopen, List.length_map]

/-! ### A refused restore touches nothing -/

/-- A call that only asks. -/
def asksOnly : Call → Bool
  | .asked .. | .listed .. => true
  | .acted .. | .sized .. | .digested .. | .fetched .. | .replaced .. => false

theorem asksOnly_historyOf {n : Nat} {vs : List Inspection} {e : Event}
    (h : e ∈ Inspection.historyOf n vs) : asksOnly e.call := by
  induction vs generalizing n with
  | nil => cases h
  | cons v rest ih =>
    rcases List.mem_append.mp h with h | h
    · obtain ⟨call, hcall, rfl⟩ := List.mem_map.mp h
      rcases List.mem_cons.mp hcall with rfl | hcall
      · rfl
      · obtain ⟨answer, -, rfl⟩ := List.mem_map.mp hcall
        rfl
    · exact ih h

/-- Before its phases, a restore only asks. -/
theorem mem_phases {n : Nat} {vs : List Inspection} {h : History} {e : Event}
    (hmem : e ∈ Inspection.historyOf n vs ++ h) (hasks : asksOnly e.call = false) : e ∈ h := by
  rcases List.mem_append.mp hmem with hasked | hlater
  · rw [asksOnly_historyOf hasked] at hasks
    cases hasks
  · exact hlater

theorem reports_finish (p : Progress) (path : String) :
    Reports (p.finish (ε := ε) path) := by
  unfold Progress.finish
  simp only
  split
  · exact ⟨_, .inr rfl⟩
  · exact ⟨_, .inl rfl⟩

/-- Only a failure in its phases is the report of a run that failed. -/
theorem not_reports_error {e : Error ε} (h : ∀ report, e ≠ .failed report) :
    ¬ Reports (.error e) := by
  rintro ⟨report, hreport | hreport⟩
  · cases hreport
  · exact h report (Except.error.inj hreport)

theorem not_reports_refusal {d : Deployment (World F) ε} {path : String} {w : World F}
    {vs : List Inspection} {e : Error ε} (h : refusal d path w vs = some e) :
    ¬ Reports (.error e) := by
  refine not_reports_error ?_
  rintro report rfl
  unfold refusal at h
  grind

/-- A restore enters its phases exactly when there is no reason to refuse it. Then its history is
    a walk behind the questions, and it ends with the report of the walk. Otherwise it ends with
    the first reason, the instances were asked and nothing else, and the disk is as it was. -/
theorem restore_refused_or_entered (d : Deployment F ε) (policy : Policy) (path : String)
    (w : World F) :
    ∃ vs : List Inspection,
      vs.length = (inspected d.inFleet path w).length ∧ (∀ v ∈ vs, v.Of) ∧
      Inspection.historyOf 0 vs <+: restoreHistory d.inFleet policy path w ∧
      (Reports (restore d.inFleet policy path w).1 ↔ refusal d.inFleet path w vs = none) ∧
      (∀ e, refusal d.inFleet path w vs = some e →
        (restore d.inFleet policy path w).1 = .error e ∧
        restoreHistory d.inFleet policy path w = Inspection.historyOf 0 vs ∧
        (∀ event ∈ restoreHistory d.inFleet policy path w, asksOnly event.call) ∧
        (restore d.inFleet policy path w).2.disk = w.disk) ∧
      (refusal d.inFleet path w vs = none →
        ∃ k : Walk, k.Of policy restorePlan (inspected d.inFleet path w).length ∧
          restoreHistory d.inFleet policy path w =
            Inspection.historyOf 0 vs ++ k.history restorePlan ∧
          (restore d.inFleet policy path w).1 =
            k.ending restorePlan (inspected d.inFleet path w) path) := by
  obtain ⟨vs, answered, hlength, hof, hdisk, hhistory, hdecided⟩ :=
    restore_decided d policy path w
  obtain ⟨hresult, hworld⟩ := restore_observed d.inFleet policy path w
  unfold Decided at hdecided
  unfold restoreHistory
  rw [← hresult, ← hworld, World.disk_seen]
  refine ⟨vs, hlength, hof, ?_⟩
  cases hrefusal : refusal d.inFleet path w vs with
  | some e =>
    -- The run ends with its questions.
    rw [hrefusal] at hdecided
    rw [hdecided]
    refine ⟨?_, ?_, ?_, nofun⟩
    · exact ⟨[], by rw [List.append_nil, hhistory]⟩
    · exact iff_of_false (not_reports_refusal hrefusal) (by simp)
    · intro e' he
      cases he
      refine ⟨rfl, hhistory, ?_, hdisk⟩
      intro event hevent
      rw [hhistory] at hevent
      exact asksOnly_historyOf hevent
  | none =>
    rw [hrefusal] at hdecided
    obtain ⟨is, a, hinstances, hopen, hdriven⟩ := hdecided
    obtain ⟨k, hwalks, hprogress, hwalk⟩ := drive_walk (operates_restorePlan a) is answered
    rw [hhistory] at hwalk
    have hids : inspected d.inFleet path w = is.map (·.id) := by
      unfold inspected
      rw [hinstances, hopen]
    rw [hdriven, hids]
    refine ⟨?_, ?_, nofun, fun _ => ⟨k, ?_, hwalk, ?_⟩⟩
    · rw [hwalk]
      exact List.prefix_append _ _
    · exact iff_of_true (reports_finish _ path) rfl
    · rwa [List.length_map]
    · simp only [hprogress]
      exact finish_progressOf blocks_restorePlan _ k path

end DeploymentBackup.Workflow
