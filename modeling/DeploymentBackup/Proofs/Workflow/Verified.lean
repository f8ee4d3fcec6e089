import DeploymentBackup.Proofs.Workflow.RoundTrip

namespace DeploymentBackup.Workflow

open Text Artifact

/-!
# Verified data

In the data phase of a restore, an instance is given its blobs one behind the other, and each
one is checked before the next one is touched. It applies what it was given only if all of
them have arrived.

* `Arrived`, `Missed` — the two ends of the upload of a blob.
* `PutsBack` — the operation of the data phase, with all that it depends on.
* `putBack_run` — every instance of a fleet behaves like this, whatever it does.
* `restore_verified` — what is applied, what is reported and what is left alone in a restore
  that enters its phases.
-/

variable {F ε : Type}

/-! ### What becomes of an upload -/

/-- The archive of the blob `k` was opened, the blob received it without a failure, and what it
    reported behind that is what is recorded. -/
def Arrived (a : Artifact) (m : Metadata) (disk : Disk) (k : Nat) (blob : Identifier)
    (calls : List Call) : Prop :=
  ∃ expected source, m.digestsFor? blob = some expected ∧ a.openFile blob disk = .ok source ∧
    calls = [.replaced k source (.ok ()), .digested k (.ok expected)]

/-- The upload of the blob `k` was given up: it is not recorded, its archive cannot be opened,
    it was not received, it reports nothing, or it reports something else. -/
inductive Missed (a : Artifact) (m : Metadata) (disk : Disk) (k : Nat) (blob : Identifier) :
    List Call → Halt → Prop
  | unrecorded (none : m.digestsFor? blob = none) :
      Missed a m disk k blob [] (.fault (.missingChecksum blob))
  | unopened {expected : Digests} {fault : Artifact.Fault}
      (recorded : m.digestsFor? blob = some expected)
      (closed : a.openFile blob disk = .error fault) :
      Missed a m disk k blob [] (.fault (.artifact fault))
  | unreceived {expected : Digests} {source : Source} {halt : Halt}
      (recorded : m.digestsFor? blob = some expected) (opened : a.openFile blob disk = .ok source) :
      Missed a m disk k blob [.replaced k source (.error halt)] halt
  | unreported {expected : Digests} {source : Source} {halt : Halt}
      (recorded : m.digestsFor? blob = some expected) (opened : a.openFile blob disk = .ok source) :
      Missed a m disk k blob [.replaced k source (.ok ()), .digested k (.error halt)] halt
  | differing {expected remote : Digests} {source : Source}
      (recorded : m.digestsFor? blob = some expected) (opened : a.openFile blob disk = .ok source)
      (differs : remote ≠ expected) :
      Missed a m disk k blob [.replaced k source (.ok ()), .digested k (.ok remote)]
        (.fault (.integrity blob (", ".intercalate (expected.differences remote))))

/-- All blobs have arrived, in order, the first one of them at position `k`. -/
def AllArrived (a : Artifact) (m : Metadata) (disk : Disk) :
    (k : Nat) → List Identifier → List Call → Prop
  | _, [], calls => calls = []
  | k, blob :: rest, calls =>
    ∃ first others, Arrived a m disk k blob first ∧ AllArrived a m disk (k + 1) rest others ∧
      calls = first ++ others

/-- What an instance is called for in the data phase, and how that ends. With the first upload
    that is given up, the turn is over; the instance acts when there is none. -/
inductive PutsBack (a : Artifact) (m : Metadata) (disk : Disk) :
    List Call → Except Halt Unit → Prop
  | unlisted (halt : Halt) : PutsBack a m disk [.listed (.error halt)] (.error halt)
  | stopped {front rest : List Identifier} {blob : Identifier} {sent last : List Call} {halt : Halt}
      (arrived : AllArrived a m disk 0 front sent)
      (missed : Missed a m disk front.length blob last halt) :
      PutsBack a m disk (.listed (.ok (front ++ blob :: rest)) :: sent ++ last) (.error halt)
  | applied {ids : List Identifier} {sent : List Call} (outcome : Except Halt Unit)
      (arrived : AllArrived a m disk 0 ids sent) :
      PutsBack a m disk (.listed (.ok ids) :: sent ++ [.acted .restore outcome]) outcome

/-- In its turn, an instance that is capable of a restore is called for that. -/
def Restores (a : Artifact) (m : Metadata) (disk : Disk) (t : Turn) : Prop :=
  t.answer = .ok true → PutsBack a m disk t.calls t.outcome

theorem restores_of_incapable {a : Artifact} {m : Metadata} {disk : Disk} {t : Turn}
    (h : t.answer ≠ .ok true) : Restores a m disk t :=
  fun hc => absurd hc h

/-- The blob `k` of an instance was checked in its turn: it is recorded, its archive was opened,
    the blob received it, and right behind that it reported what is recorded. -/
def Verified (a : Artifact) (m : Metadata) (disk : Disk) (t : Turn) (k : Nat)
    (blob : Identifier) : Prop :=
  ∃ expected source, m.digestsFor? blob = some expected ∧ a.openFile blob disk = .ok source ∧
    [.replaced k source (.ok ()), .digested k (.ok expected)] <:+: t.calls

section Uploads

variable {a : Artifact} {m : Metadata} {disk : Disk} {k : Nat} {blob : Identifier}
  {ids : List Identifier} {calls : List Call}

/-- Behind blobs that have arrived, the list is worked off as from there on. -/
theorem AllArrived.worksOff_append {rest : List Identifier} {last : List Call}
    {outcome : Except Halt Unit} (h : AllArrived a m disk k ids calls)
    (hrest : WorksOff Receives (k + ids.length) rest last outcome) :
    WorksOff Receives k (ids ++ rest) (calls ++ last) outcome := by
  induction ids generalizing k calls with
  | nil =>
    obtain rfl : calls = [] := h
    exact hrest
  | cons blob others ih =>
    obtain ⟨first, sent, ⟨expected, source, -, -, rfl⟩, hothers, rfl⟩ := h
    rw [List.length_cons, Nat.add_comm others.length 1, ← Nat.add_assoc] at hrest
    rw [List.append_assoc]
    exact .next (.arrived source expected) (ih hothers hrest)

theorem AllArrived.worksOff (h : AllArrived a m disk k ids calls) :
    WorksOff Receives k ids calls (.ok ()) := by
  have hall := h.worksOff_append (.done _)
  rwa [List.append_nil, List.append_nil] at hall

theorem Missed.receives {halt : Halt} (h : Missed a m disk k blob calls halt) :
    Receives k blob calls (.error halt) := by
  cases h with
  | unrecorded none => exact .unrecorded
  | unopened recorded closed => exact .unopened _
  | unreceived recorded opened => exact .unreceived _ _
  | unreported recorded opened => exact .unreported _ _
  | differing recorded opened differs => exact .differing _ _ _

/-- The calls of a turn are those of the data phase. -/
theorem PutsBack.operated {outcome : Except Halt Unit} (h : PutsBack a m disk calls outcome) :
    Phase.restore.Operated calls outcome := by
  cases h with
  | unlisted halt => exact .inl ⟨halt, rfl, rfl⟩
  | @stopped front rest blob sent last halt arrived missed =>
    have hlast : WorksOff Receives (0 + front.length) (blob :: rest) last (.error halt) := by
      rw [Nat.zero_add]
      exact .stopped rest missed.receives
    exact .inr ⟨_, sent ++ last, .inl ⟨halt, arrived.worksOff_append hlast, rfl, rfl⟩⟩
  | @applied ids sent outcome arrived => exact .inr ⟨ids, sent, .inr ⟨arrived.worksOff, rfl⟩⟩

/-- Every blob of a list that has arrived was checked. -/
theorem AllArrived.verified (h : AllArrived a m disk k ids calls) {j : Nat}
    (hblob : ids[j]? = some blob) :
    ∃ expected source, m.digestsFor? blob = some expected ∧ a.openFile blob disk = .ok source ∧
      [.replaced (k + j) source (.ok ()), .digested (k + j) (.ok expected)] <:+: calls := by
  induction ids generalizing k j calls with
  | nil => cases hblob
  | cons head rest ih =>
    obtain ⟨first, others, ⟨expected, source, hrecorded, hopened, rfl⟩, hrest, rfl⟩ := h
    cases j with
    | zero =>
      cases hblob
      exact ⟨expected, source, hrecorded, hopened, (List.prefix_append _ _).isInfix⟩
    | succ j =>
      obtain ⟨expected', source', hrecorded', hopened', hcalls⟩ := ih hrest hblob
      rw [Nat.add_assoc, Nat.add_comm 1 j] at hcalls
      exact ⟨expected', source', hrecorded', hopened',
        hcalls.trans (List.suffix_append _ _).isInfix⟩

/-- The blobs of a list report at their positions. -/
theorem AllArrived.position (h : AllArrived a m disk k ids calls) {j : Nat}
    {answer : Except Halt Digests} (hmem : .digested j answer ∈ calls) : j < k + ids.length := by
  induction ids generalizing k calls with
  | nil =>
    obtain rfl : calls = [] := h
    cases hmem
  | cons head rest ih =>
    obtain ⟨first, others, ⟨expected, source, -, -, rfl⟩, hrest, rfl⟩ := h
    rw [List.length_cons]
    rcases List.mem_append.mp hmem with hmem | hmem
    · simp only [List.mem_cons, Call.digested.injEq, List.not_mem_nil, or_false, reduceCtorEq,
        false_or] at hmem
      omega
    · have hlt := ih hrest hmem
      omega

/-- A blob whose upload was given up did not report what is recorded. -/
theorem Missed.not_reported {halt : Halt} (h : Missed a m disk k blob calls halt)
    {expected : Digests} (hrecorded : m.digestsFor? blob = some expected) :
    .digested k (.ok expected) ∉ calls := by
  intro hmem
  cases h with
  | unrecorded none =>
    rw [none] at hrecorded
    cases hrecorded
  | unopened => cases hmem
  | unreceived => simp at hmem
  | unreported => simp at hmem
  | @differing expected' remote source recorded opened differs =>
    rw [recorded] at hrecorded
    cases hrecorded
    simp only [List.mem_cons, Call.digested.injEq, List.not_mem_nil, or_false, reduceCtorEq,
      false_or, Except.ok.injEq, true_and] at hmem
    exact differs hmem.symm

/-- An instance acts exactly when it listed its blobs and each one of them was checked. -/
theorem PutsBack.applied_iff {t : Turn} (h : PutsBack a m disk t.calls t.outcome) :
    (∃ outcome, .acted .restore outcome ∈ t.calls) ↔
      ∃ ids, .listed (.ok ids) ∈ t.calls ∧
        ∀ j blob, ids[j]? = some blob → Verified a m disk t j blob := by
  unfold Verified
  generalize t.calls = calls, t.outcome = outcome at h
  have hnever {sent : List Call} (hsent : ∀ c ∈ sent, c.isOfBlob) :
      (∀ outcome, .acted .restore outcome ∉ sent) ∧ ∀ ids, .listed (.ok ids) ∉ sent :=
    ⟨fun _ hc => Bool.false_ne_true (hsent _ hc), fun _ hc => Bool.false_ne_true (hsent _ hc)⟩
  cases h with
  | unlisted halt => simp
  | @stopped front rest blob sent last halt arrived missed =>
    have hsent := hnever (arrived.worksOff.all fun _ _ _ _ h => h.ofBlob)
    have hlast := hnever missed.receives.ofBlob
    refine iff_of_false ?_ ?_
    · rintro ⟨outcome, hacted⟩
      simp [hsent.1, hlast.1] at hacted
    · rintro ⟨ids, hlisted, hall⟩
      obtain rfl : ids = front ++ blob :: rest := by
        simpa [hsent.2, hlast.2] using hlisted
      -- The blob that was given up would have been checked as well.
      obtain ⟨expected, source, hrecorded, -, hcalls⟩ := hall front.length blob (by simp)
      have hreported : .digested front.length (.ok expected) ∈
          .listed (.ok (front ++ blob :: rest)) :: sent ++ last := hcalls.subset (by simp)
      simp only [List.cons_append, List.mem_cons, List.mem_append, reduceCtorEq, false_or]
        at hreported
      rcases hreported with hreported | hreported
      · have hlt := arrived.position hreported
        omega
      · exact missed.not_reported hrecorded hreported
  | @applied ids sent outcome arrived =>
    refine iff_of_true ⟨outcome, by simp⟩ ⟨ids, by simp, ?_⟩
    intro j blob hblob
    obtain ⟨expected, source, hrecorded, hopened, hcalls⟩ := arrived.verified hblob
    rw [Nat.zero_add] at hcalls
    refine ⟨expected, source, hrecorded, hopened, hcalls.trans ?_⟩
    exact ⟨[.listed (.ok ids)], [.acted .restore outcome], rfl⟩

end Uploads

/-! ### What a fleet does -/

section Runs

variable {a : Artifact} {m : Metadata} {n : Nat} {w : World (F × History)}

/-- Every upload arrives or is given up, and the disk stays as it is. -/
theorem upload_run (hmetadata : a.metadata w.disk = .ok m) (b : Blob F) (k : Nat) :
    ∃ w' calls, w'.disk = w.disk ∧ w'.history = w.history ++ calls.map (Event.mk n) ∧
      (upload a (b.inFleet.observed n k) w = (.ok (), w') ∧ Arrived a m w.disk k b.id calls ∨
        ∃ halt, upload a (b.inFleet.observed n k) w = (.error halt, w') ∧
          Missed a m w.disk k b.id calls halt) := by
  have hfetch : a.fetchDigests b.id w.disk = .ok (m.digestsFor? b.id) := by
    unfold fetchDigests
    rw [hmetadata]
    rfl
  unfold upload
  rw [id_observed, bind_of_ok (inspectDisk_ok hfetch)]
  -- Wherever the upload is given up, the calls up to there were noted.
  cases hrecorded : m.digestsFor? b.id with
  | none => exact ⟨w, [], rfl, (List.append_nil _).symm, .inr ⟨_, rfl, .unrecorded hrecorded⟩⟩
  | some expected =>
    simp only
    cases hopened : a.openFile b.id w.disk with
    | error fault =>
      rw [bind_of_error (inspectDisk_error hopened)]
      exact ⟨w, [], rfl, (List.append_nil _).symm, .inr ⟨_, rfl, .unopened hrecorded hopened⟩⟩
    | ok source =>
      rw [bind_of_ok (inspectDisk_ok hopened)]
      obtain ⟨w₁, received, hreplace, hdisk₁, hhistory₁⟩ : ∃ w₁ received,
          (b.inFleet.observed n k).replace source w = (received, w₁) ∧ w₁.disk = w.disk ∧
            w₁.history = w.history ++ [⟨n, .replaced k source received⟩] :=
        ⟨_, _, rfl, rfl, rfl⟩
      cases received with
      | error halt =>
        rw [bind_of_error hreplace]
        exact ⟨w₁, [_], hdisk₁, hhistory₁, .inr ⟨halt, rfl, .unreceived hrecorded hopened⟩⟩
      | ok _ =>
        rw [bind_of_ok hreplace]
        obtain ⟨w₂, reported, hdigests, hdisk₂, -, hhistory₂⟩ := digests_run (n := n) (k := k) b w₁
        have hdisk₂ := hdisk₂.trans hdisk₁
        have hhistory₂ : w₂.history = w.history ++
            [Call.replaced k source (.ok ()), .digested k reported].map (Event.mk n) := by
          rw [hhistory₂, hhistory₁, List.append_assoc]
          rfl
        cases reported with
        | error halt =>
          rw [bind_of_error hdigests]
          exact ⟨w₂, _, hdisk₂, hhistory₂, .inr ⟨halt, rfl, .unreported hrecorded hopened⟩⟩
        | ok remote =>
          rw [bind_of_ok hdigests]
          by_cases hagrees : remote = expected
          · subst hagrees
            rw [if_pos (by simp [Digests.agrees])]
            exact ⟨w₂, _, hdisk₂, hhistory₂, .inl ⟨rfl, remote, source, hrecorded, hopened, rfl⟩⟩
          · rw [if_neg (by simpa [Digests.agrees] using hagrees)]
            exact ⟨w₂, _, hdisk₂, hhistory₂, .inr ⟨_, rfl, .differing hrecorded hopened hagrees⟩⟩

/-- The uploads end with the first one that is given up, by induction on the blobs. -/
theorem uploadAll_run (hmetadata : a.metadata w.disk = .ok m) (bs : List (Blob F)) (k : Nat) :
    ∃ w' calls, w'.disk = w.disk ∧ w'.history = w.history ++ calls.map (Event.mk n) ∧
      (uploadAll a (observedBlobs n k (bs.map Blob.inFleet)) w = (.ok (), w') ∧
          AllArrived a m w.disk k (bs.map (·.id)) calls ∨
        ∃ halt front blob rest sent last,
          uploadAll a (observedBlobs n k (bs.map Blob.inFleet)) w = (.error halt, w') ∧
          bs.map (·.id) = front ++ blob :: rest ∧ AllArrived a m w.disk k front sent ∧
          Missed a m w.disk (k + front.length) blob last halt ∧ calls = sent ++ last) := by
  induction bs generalizing k w with
  | nil => exact ⟨w, [], rfl, (List.append_nil _).symm, .inl ⟨rfl, rfl⟩⟩
  | cons b rest ih =>
    rw [List.map_cons, List.map_cons, observedBlobs, uploadAll]
    obtain ⟨w₁, first, hdisk₁, hhistory₁, ⟨hupload, harrived⟩ | ⟨halt, hupload, hmissed⟩⟩ :=
      upload_run (n := n) hmetadata b k
    · rw [bind_of_ok hupload]
      obtain ⟨w₂, others, hdisk₂, hhistory₂, hend⟩ :=
        ih (w := w₁) (by rw [hdisk₁, hmetadata]) (k + 1)
      rw [hdisk₁] at hend
      refine ⟨w₂, first ++ others, hdisk₂.trans hdisk₁, ?_, ?_⟩
      · rw [hhistory₂, hhistory₁, List.map_append, List.append_assoc]
      · rcases hend with ⟨hok, hall⟩ |
          ⟨halt, front, blob, after, sent, last, hfailed, hids, hall, hmissed, rfl⟩
        · exact .inl ⟨hok, first, others, harrived, hall, rfl⟩
        · -- The blob that was missed is one place further on.
          refine .inr ⟨halt, b.id :: front, blob, after, first ++ sent, last, hfailed, ?_,
            ⟨first, sent, harrived, hall, rfl⟩, ?_, by rw [List.append_assoc]⟩
          · rw [hids, List.cons_append]
          · rw [List.length_cons, Nat.add_comm front.length 1, ← Nat.add_assoc]
            exact hmissed
    · rw [bind_of_error hupload]
      exact ⟨w₁, first, hdisk₁, hhistory₁,
        .inr ⟨halt, [], b.id, _, [], first, rfl, rfl, rfl, hmissed, rfl⟩⟩

/-- The data phase of an instance of a fleet. -/
theorem putBack_run (hmetadata : a.metadata w.disk = .ok m) (i : Instance F) :
    ∃ w' calls outcome, putBack a (i.inFleet.observed n) w = (outcome, w') ∧ w'.disk = w.disk ∧
      w'.history = w.history ++ calls.map (Event.mk n) ∧ PutsBack a m w.disk calls outcome := by
  unfold putBack
  obtain ⟨w₁, hdisk₁, -, ⟨halt, hlisted, hhistory₁⟩ | ⟨bs, hlisted, hhistory₁⟩⟩ :=
    listed_run (n := n) i w
  · rw [bind_of_error hlisted]
    exact ⟨w₁, [.listed (.error halt)], _, rfl, hdisk₁, hhistory₁, .unlisted halt⟩
  · rw [bind_of_ok hlisted]
    obtain ⟨w₂, calls, hdisk₂, hhistory₂, hend⟩ := uploadAll_run (n := n) (w := w₁)
      (by rw [hdisk₁, hmetadata]) bs 0
    rw [hdisk₁] at hend
    have hdisk₂ := hdisk₂.trans hdisk₁
    rcases hend with ⟨hok, hall⟩ |
      ⟨halt, front, blob, rest, sent, last, hfailed, hids, hall, hmissed, rfl⟩
    · rw [bind_of_ok hok]
      -- The instance acts when all its blobs have arrived.
      obtain ⟨w₃, outcome, hacted, hdisk₃, -, hhistory₃⟩ := acted_run (n := n) i .restore w₂
      refine ⟨w₃, _, outcome, hacted, hdisk₃.trans hdisk₂, ?_, .applied outcome hall⟩
      rw [hhistory₃, hhistory₂, hhistory₁]
      simp
    · rw [bind_of_error hfailed]
      rw [hids] at hhistory₁
      rw [Nat.zero_add] at hmissed
      refine ⟨w₂, .listed (.ok (front ++ blob :: rest)) :: sent ++ last, _, rfl, hdisk₂, ?_,
        .stopped hall hmissed⟩
      rw [hhistory₂, hhistory₁]
      simp

/-- The turn of an instance of a fleet. -/
theorem visit_restores (hmetadata : a.metadata w.disk = .ok m) (i : Instance F) :
    ∃ t : Turn, IsTurn .restore (putBack a) n i.inFleet w t ∧ Restores a m w.disk t ∧
      (Phase.restore.visit (putBack a) (i.inFleet.observed n) w).2.disk = w.disk := by
  obtain ⟨t, hturn, ⟨hanswer, hdisk, -⟩ | ⟨-, hputs, hdisk⟩⟩ :=
    visit_fleet (n := n) (R := fun calls outcome w' => PutsBack a m w.disk calls outcome ∧
      w'.disk = w.disk) i w fun w₁ hdisk₁ _ => by
        obtain ⟨w₂, calls, outcome, hput, hdisk₂, hhistory, hputs⟩ :=
          putBack_run (n := n) (w := w₁) (by rw [hdisk₁, hmetadata]) i
        rw [hdisk₁] at hputs hdisk₂
        exact ⟨w₂, calls, outcome, hput, hhistory, hputs.operated, hputs, hdisk₂⟩
  · exact ⟨t, hturn, restores_of_incapable hanswer, hdisk⟩
  · exact ⟨t, hturn, fun _ => hputs, hdisk⟩

/-- The turns of all instances. What one of them does leaves the record and the archives to the
    next one as they were. -/
theorem sweep_restores (is : List (Instance F)) (n : Nat) (hmetadata : a.metadata w.disk = .ok m) :
    SweepsBy (Restores a m w.disk) .restore (putBack a) n (is.map Instance.inFleet) w := by
  obtain ⟨turns, hall, ⟨hrestores, -⟩, herrors, hhistory⟩ :=
    sweep_to (I := fun turns w' => (∀ t ∈ turns, Restores a m w.disk t) ∧ w'.disk = w.disk)
      (is.map Instance.inFleet) (fun i hi n turns w₁ h => by
        obtain ⟨j, -, rfl⟩ := List.mem_map.mp hi
        obtain ⟨hturns, hdisk₁⟩ := h
        obtain ⟨t, hturn, ht, hdisk⟩ := visit_restores (n := n) (by rw [hdisk₁, hmetadata]) j
        rw [hdisk₁] at ht hdisk
        refine ⟨t, hturn, ?_, hdisk⟩
        intro t' ht'
        rcases List.mem_append.mp ht' with ht' | ht'
        · exact hturns t' ht'
        · rwa [List.mem_singleton.mp ht']) n ⟨by simp, rfl⟩
  exact ⟨turns, hall, hrestores, herrors, hhistory⟩

end Runs

/-! ### Restores that enter their phases -/

/-- In the turns of a phase, an instance acts in this phase only. -/
theorem phase_of_acted {phase phase' : Phase} {t : Turn} {outcome : Except Halt Unit}
    (hof : t.Of phase) (hmem : .acted phase' outcome ∈ t.calls) : phase' = phase := by
  rcases hof.calls hmem with hblob | ⟨outcome', hc⟩ | ⟨listed, hc⟩
  · exact absurd hblob Bool.false_ne_true
  · exact (Call.acted.inj hc).1
  · cases hc

/-- Only an instance that is capable of the phase is called for more than that. -/
theorem capable_of_called {phase : Phase} {t : Turn} (hof : t.Of phase) {c : Call}
    (hc : c ∈ t.calls) : t.answer = .ok true := by
  unfold Turn.Of at hof
  rcases hanswer : t.answer with halt | able
  · rw [hanswer] at hof
    rw [hof.1] at hc
    cases hc
  · cases able with
    | true => rfl
    | false =>
      rw [hanswer] at hof
      rw [hof.1] at hc
      cases hc

/-- In a walk, only the turns of the data phase end in a restore. -/
theorem applied_in_walk {policy : Policy} {count : Nat} {k : Walk}
    (hof : k.Of policy restorePlan count) (vs : List Inspection) (n : Nat)
    (outcome : Except Halt Unit) :
    ⟨n, .acted .restore outcome⟩ ∈ Inspection.historyOf 0 vs ++ k.history restorePlan ↔
      ∃ turns t, k.data = some turns ∧ turns[n]? = some t ∧ .acted .restore outcome ∈ t.calls := by
  -- Neither the questions nor the other phases call an instance for a restore.
  have hinspected : ⟨n, .acted .restore outcome⟩ ∉ Inspection.historyOf 0 vs :=
    fun hmem => Bool.false_ne_true (asksOnly_historyOf hmem)
  have hother {phase : Phase} {turns : List Turn} (hphase : .restore ≠ phase)
      (hall : Turn.All phase count turns) :
      ⟨n, .acted .restore outcome⟩ ∉ Turn.historyOf phase 0 turns := by
    intro hmem
    obtain ⟨j, t, ht, -, hcall | hcall⟩ := Turn.mem_historyOf.mp hmem
    · cases hcall
    · exact hphase (phase_of_acted (hall.2 t (List.mem_of_getElem? ht)) hcall)
  have hdata (turns : List Turn) :
      ⟨n, .acted .restore outcome⟩ ∈ Turn.historyOf .restore 0 turns ↔
        ∃ t, turns[n]? = some t ∧ .acted .restore outcome ∈ t.calls := by
    rw [Turn.mem_historyOf]
    constructor
    · rintro ⟨j, t, ht, hmember, hcall | hcall⟩
      · cases hcall
      · obtain rfl : n = j := hmember.trans (Nat.zero_add j)
        exact ⟨t, ht, hcall⟩
    · rintro ⟨t, ht, hcall⟩
      exact ⟨n, t, ht, (Nat.zero_add n).symm, .inr hcall⟩
  have hlock := hother (by decide) hof.lock
  have hunlock := hother (by decide) hof.unlock
  have hcleanup := hother (by decide) hof.cleanup
  simp only [Walk.history, List.mem_append, hinspected, hlock, hunlock, hcleanup, false_or,
    or_false]
  rw [show restorePlan.data = .restore from rfl, hdata]
  constructor
  · rintro ⟨t, ht, hcall⟩
    cases hturns : k.data with
    | none =>
      rw [Walk.moved, hturns] at ht
      cases ht
    | some turns =>
      rw [Walk.moved, hturns] at ht
      exact ⟨turns, t, rfl, ht, hcall⟩
  · rintro ⟨turns, t, hturns, ht, hcall⟩
    rw [Walk.moved, hturns]
    exact ⟨t, ht, hcall⟩

/-- When every turn of the data phase puts back what it can, an instance acts exactly when its
    turn has come and each of its blobs was checked in it. -/
theorem applied_iff_verified {policy : Policy} {count : Nat} {k : Walk} {a : Artifact}
    {m : Metadata} {disk : Disk} (hof : k.Of policy restorePlan count)
    (hputs : ∀ t ∈ k.moved, t.answer = .ok true → PutsBack a m disk t.calls t.outcome)
    (vs : List Inspection) (n : Nat) :
    (∃ outcome, ⟨n, .acted .restore outcome⟩ ∈
        Inspection.historyOf 0 vs ++ k.history restorePlan) ↔
      ∃ turns t ids, k.data = some turns ∧ turns[n]? = some t ∧ t.answer = .ok true ∧
        .listed (.ok ids) ∈ t.calls ∧
        ∀ j blob, ids[j]? = some blob → Verified a m disk t j blob := by
  constructor
  · rintro ⟨outcome, hmem⟩
    obtain ⟨turns, t, hturns, ht, hcall⟩ := (applied_in_walk hof vs n outcome).mp hmem
    have hmember := List.mem_of_getElem? ht
    have hanswer := capable_of_called ((hof.data turns hturns).2 t hmember) hcall
    have hput := hputs t (by rwa [Walk.moved, hturns]) hanswer
    obtain ⟨ids, hlisted, hverified⟩ := hput.applied_iff.mp ⟨outcome, hcall⟩
    exact ⟨turns, t, ids, hturns, ht, hanswer, hlisted, hverified⟩
  · rintro ⟨turns, t, ids, hturns, ht, hanswer, hlisted, hverified⟩
    have hmember := List.mem_of_getElem? ht
    have hput := hputs t (by rwa [Walk.moved, hturns]) hanswer
    obtain ⟨outcome, hcall⟩ := hput.applied_iff.mpr ⟨ids, hlisted, hverified⟩
    exact ⟨outcome, (applied_in_walk hof vs n outcome).mpr ⟨turns, t, hturns, ht, hcall⟩⟩

/-- Whatever becomes of a restore, the disk stays as it is. -/
theorem restore_disk (d : Deployment F ε) (policy : Policy) (path : String) (w : World F) :
    (restore d.inFleet policy path w).2.disk = w.disk := by
  cases hfleet : d.instances w.fleet with
  | error cause =>
    have hinstances : d.inFleet.instances w = .error cause := by
      show (d.instances w.fleet).map _ = _
      rw [hfleet]
      rfl
    rw [restore_not_found hinstances]
  | ok is =>
    have hinstances := inFleet_instances hfleet
    cases hopen : openAt w.disk path with
    | error fault => rw [restore_not_opened hinstances hopen]
    | ok a =>
      have hmembers : ∀ i ∈ is.map Instance.inFleet, i.Steps World.Beside := by
        intro i hi
        obtain ⟨i', -, rfl⟩ := List.mem_map.mp hi
        exact i'.inFleet_steps
      -- What an instance of a fleet and its blobs do changes the fleet alone.
      have hput : ∀ i ∈ is.map Instance.inFleet, Act.Steps World.Beside (putBack a i) := by
        intro i hi
        obtain ⟨i', -, rfl⟩ := List.mem_map.mp hi
        refine i'.inFleet_steps.blobs.bind_of World.keeping_beside fun w bs hlisted => ?_
        have hblobs : ∀ b ∈ bs, b.Steps World.Beside := by
          change (i'.blobs w.fleet).1.map (·.map Blob.inFleet) = .ok bs at hlisted
          cases hbs : (i'.blobs w.fleet).1 with
          | error halt =>
            rw [hbs] at hlisted
            cases hlisted
          | ok members =>
            rw [hbs] at hlisted
            cases hlisted
            intro b hb
            obtain ⟨b', -, rfl⟩ := List.mem_map.mp hb
            exact b'.inFleet_steps
        exact (steps_uploadAll World.keeping_beside a hblobs).bind World.keeping_beside
          fun _ => i'.inFleet_steps.act .restore
      have hinspect : w.Beside (inspect (ε := ε) (is.map Instance.inFleet) w).2 :=
        beside_inspectAll is 1 w
      have hdrive := steps_drive World.keeping_beside policy restorePlan hmembers hput
      rw [restore_eq hinstances hopen]
      simp only
      split
      · exact hinspect.disk
      · split
        · exact hinspect.disk
        · exact hinspect.disk
        · exact (hdrive _).disk.trans hinspect.disk

/-- A restore that reports has found its artifact and can read the record. -/
theorem entered_of_reports {d : Deployment F ε} {policy : Policy} {path : String} {w : World F}
    (h : Reports (restore d.inFleet policy path w).1) :
    ∃ (is : List (Instance F)) (a : Artifact) (m : Metadata) (vs : List Inspection)
        (answered : World (F × History)),
      d.instances w.fleet = .ok is ∧ openAt w.disk path = .ok a ∧ a.metadata w.disk = .ok m ∧
      answered.disk = w.disk ∧ answered.history = Inspection.historyOf 0 vs ∧
      restore d.inFleet.observed policy path (w.noting []) =
        let driven := drive policy restorePlan (putBack a)
          (observedFrom 0 (is.map Instance.inFleet)) answered
        (driven.1.finish path, driven.2) := by
  obtain ⟨vs, answered, -, -, hdisk, hhistory, hdecided⟩ := restore_decided d policy path w
  obtain ⟨hresult, -⟩ := restore_observed d.inFleet policy path w
  rw [← hresult] at h
  unfold Decided at hdecided
  -- A run that is refused reports nothing, and a record that cannot be read is a refusal.
  cases hrefusal : refusal d.inFleet path w vs with
  | some e =>
    rw [hrefusal] at hdecided
    rw [hdecided] at h
    exact absurd h (not_reports_refusal hrefusal)
  | none =>
    rw [hrefusal] at hdecided
    obtain ⟨members, a, hinstances, hopen, hdriven⟩ := hdecided
    unfold refusal at hrefusal
    rw [hinstances, hopen] at hrefusal
    change (d.instances w.fleet).map _ = _ at hinstances
    cases hfleet : d.instances w.fleet with
    | error cause =>
      rw [hfleet] at hinstances
      cases hinstances
    | ok is =>
      rw [hfleet] at hinstances
      cases hinstances
      cases hmetadata : a.metadata w.disk with
      | error fault =>
        simp only [hmetadata] at hrefusal
        split at hrefusal <;> cases hrefusal
      | ok m => exact ⟨is, a, m, vs, answered, rfl, hopen, hmetadata, hdisk, hhistory, hdriven⟩

/-- In a restore that enters its phases, an instance applies what it was given if and only if the
    data phase was not left out, the instance is capable of a restore and lists its blobs, and
    each of them was recorded, opened, received and checked. An upload that is given up ends the
    turn of its instance, and no other turn. Each turn that fails is reported once, and the disk
    is what it was. -/
theorem restore_verified (d : Deployment F ε) (policy : Policy) (path : String) (w : World F)
    (hentered : Reports (restore d.inFleet policy path w).1) :
    let run := restore d.inFleet policy path w
    let h := restoreHistory d.inFleet policy path w
    ∃ (is : List (Instance F)) (a : Artifact) (m : Metadata) (vs : List Inspection) (k : Walk),
      d.instances w.fleet = .ok is ∧ openAt w.disk path = .ok a ∧ a.metadata w.disk = .ok m ∧
      k.Of policy restorePlan is.length ∧
      h = Inspection.historyOf 0 vs ++ k.history restorePlan ∧
      (∀ n, (∃ outcome, ⟨n, .acted .restore outcome⟩ ∈ h) ↔
        ∃ turns t ids, k.data = some turns ∧ turns[n]? = some t ∧ t.answer = .ok true ∧
          .listed (.ok ids) ∈ t.calls ∧
          ∀ j blob, ids[j]? = some blob → Verified a m w.disk t j blob) ∧
      (∀ t ∈ k.moved, t.answer = .ok true → PutsBack a m w.disk t.calls t.outcome) ∧
      (∀ report, run.1 = .ok report ∨ run.1 = .error (.failed report) →
        report.errors.filter (·.phase = .restore) =
          Turn.errorsOf .restore (is.map (·.id)) k.moved) ∧
      run.2.disk = w.disk := by
  intro run h
  obtain ⟨is, a, m, vs, answered, hfleet, hopen, hmetadata, hdisk, hhistory, hdriven⟩ :=
    entered_of_reports hentered
  obtain ⟨hresult, -⟩ := restore_observed d.inFleet policy path w
  -- Locking leaves the record as it is, so that all turns of the data phase find it.
  have hlocked : (Progress.start.enter .locking restorePlan.lock restorePlan.lock.own
      (observedFrom 0 (is.map Instance.inFleet)) answered).2.disk = w.disk :=
    (quiet_enter_own .start .locking restorePlan.lock is answered).disk.trans hdisk
  have hsweep := sweep_restores (a := a) (m := m) (w := (Progress.start.enter .locking
    restorePlan.lock restorePlan.lock.own (observedFrom 0 (is.map Instance.inFleet)) answered).2)
    is 0 (by rw [hlocked, hmetadata])
  rw [hlocked] at hsweep
  obtain ⟨k, hof, hputs, hprogress, hnoted⟩ := drive_walk_of policy
    (operates_restorePlan a).lock (operates_restorePlan a).unlock hsweep
  rw [List.length_map] at hof
  have hh : h = Inspection.historyOf 0 vs ++ k.history restorePlan := by
    show (restore d.inFleet.observed policy path (w.noting [])).2.history = _
    rw [hdriven, ← hhistory]
    exact hnoted
  have hending : run.1 = k.ending restorePlan (is.map (·.id)) path := by
    have hids : (is.map Instance.inFleet).map (·.id) = is.map (·.id) := List.map_map
    show (restore d.inFleet policy path w).1 = _
    rw [← hresult, hdriven, ← hids]
    simp only [hprogress]
    exact finish_progressOf blocks_restorePlan _ k path
  refine ⟨is, a, m, vs, k, hfleet, hopen, hmetadata, hof, hh, ?_, hputs, ?_,
    restore_disk d policy path w⟩
  · intro n
    rw [hh]
    exact applied_iff_verified hof hputs vs n
  · intro report hreport
    rw [hending] at hreport
    rw [errors_of_ending hreport]
    exact blocking_data restorePlan (by decide) (by decide) (is.map (·.id)) k

/-- Two instances that share a blob are restored from their backup when nothing is left of what they
    held. The second one is given the blob that they share, and the disk stays as it is. -/
theorem restore_verified_kept :
    let d := (Deployment.kept sharers).inFleet
    let w : World Contents := ⟨Disk.fresh, [], archivedPlaces⟩
    let run := backup d .failFast "x" ⟨0, false⟩ ⟨1, false⟩ w
    let lost : World Contents := { run.2 with fleet := fun _ _ => [] }
    Reports (restore d .failFast "x" lost).1 ∧
      (restore d .failFast "x" lost).2.disk = run.2.disk ∧
      ∃ (a : Artifact) (m : Metadata) (k : Walk), openAt run.2.disk "x" = .ok a ∧
        a.metadata run.2.disk = .ok m ∧ k.Of .failFast restorePlan 2 ∧
        ⟨1, .replaced 0 (.of (archivedPlaces 0 1)) (.ok ())⟩ ∈ k.history restorePlan ∧
        ∀ t ∈ k.moved, t.answer = .ok true → PutsBack a m run.2.disk t.calls t.outcome := by
  intro d w run lost
  obtain ⟨-, hentered, -, hgiven⟩ := restore_sharers
  obtain ⟨is, a, m, vs, k, hinstances, hopen, hmetadata, hof, hhistory, -, hputs, -, hdisk⟩ :=
    restore_verified (Deployment.kept sharers) .failFast "x" lost hentered
  cases hinstances
  refine ⟨hentered, hdisk, a, m, k, hopen, hmetadata, hof, ?_, hputs⟩
  rw [hhistory] at hgiven
  exact mem_phases hgiven rfl

end DeploymentBackup.Workflow
