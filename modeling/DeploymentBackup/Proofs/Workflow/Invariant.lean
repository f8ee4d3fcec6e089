import DeploymentBackup.Proofs.Workflow.Record
import DeploymentBackup.Proofs.Workflow.Runs

namespace DeploymentBackup.Workflow

open Text Artifact

/-!
# The record throughout a backup

The invariant of the record is carried through the blobs of an instance, through the
instances, and through the phases, up to the end of a run.

* `traced_transfer`, `traced_transferAll` — the blobs of an instance.
* `visit_fleet` — the turn of an instance, whatever its operation is.
* `traced_visit`, `traced_sweep` — the turns of the instances.
* `traced_drive` — the phases.
* `traced_backup` — the end of a run.
-/

variable {F ε : Type}

/-! ### The blobs of an instance -/

section Blobs

variable {clean : Prop} {a : Artifact} {m : Metadata} {n k : Nat} {w : World (F × History)}

/-- One transfer keeps the invariant, and the run stays clean when it succeeds. -/
theorem traced_transfer (hbacked : Backed a m w.disk) {listed : Option (List Identifier)}
    (htraced : Traced clean a m n k listed w) (b : Blob F) (hhere : w.history.Holds n k b.id)
    (hcapable : ⟨n, .asked .backup (.ok true)⟩ ∈ w.history)
    (hfree : b.id.isNamed = true → b.id ∉ w.claimed) {w₁ : World (F × History)}
    (hdisk : w₁.disk = w.disk) (hhistory : w₁.history = w.history)
    (hclaimed : ∀ other, other ∈ w₁.claimed ↔
      other ∈ w.claimed ∨ b.id.isNamed = true ∧ other = b.id) :
    ∃ m', Backed a m' (transfer a (b.inFleet.observed n k) w₁).2.disk ∧
      Traced (clean ∧ (transfer a (b.inFleet.observed n k) w₁).1 = .ok ()) a m' n (k + 1) listed
        (transfer a (b.inFleet.observed n k) w₁).2 ∧
      w.history ⊆ (transfer a (b.inFleet.observed n k) w₁).2.history := by
  have hsound₁ : a.Sound w₁.disk := by
    rw [hdisk]
    exact hbacked.sound
  have hrecord₁ : a.HasRecord m w₁.disk := by
    rw [hdisk]
    exact hbacked.record
  obtain ⟨hafter, hends⟩ := transfer_ends (n := n) (k := k) hsound₁ hrecord₁ b
  generalize transfer a (b.inFleet.observed n k) w₁ = transferred at hafter hends ⊢
  obtain ⟨outcome, w'⟩ := transferred
  have hcalled {calls : List Call} (hcalls : w'.history = w₁.history ++ calls.map (Event.mk n))
      (hown : ∀ c ∈ calls, isAt k c) : Called n k b.id calls w w' := by
    refine ⟨by rw [hcalls, hhistory], hown, hhere, hfree, ?_⟩
    rw [show w'.claimed = w₁.claimed from hafter]
    exact hclaimed
  change TransferEnds a n k b.id m w₁ w' outcome at hends
  cases hends with
  | unwritten calls disk history own =>
    -- The disk is untouched, so the archives that were stored before are kept.
    have hcalled := hcalled history own
    refine ⟨m, ?_, ?_, hcalled.subset⟩
    · show Backed a m w'.disk
      rw [disk, hdisk]
      exact hbacked
    · have hhalted := htraced.halted hcalled fun other bytes _ hkeeps => by
        rw [disk, hdisk]
        exact hkeeps
      refine hhalted.weaken ?_
      rintro ⟨-, hc⟩
      cases hc
  | unrecorded calls admits stores history own =>
    -- Only the archive of this blob was written; those of other names are kept.
    rw [hdisk] at stores
    have hcalled := hcalled history own
    refine ⟨m, ?_, ?_, hcalled.subset⟩
    · exact hbacked.stored stores
    · have hhalted := htraced.halted hcalled
        fun other bytes hne hkeeps => hkeeps.of_stores hne stores
      refine hhalted.weaken ?_
      rintro ⟨-, hc⟩
      cases hc
  | @recorded size bytes digests m' disk₂ admits stores local_ inserted writes history =>
    rw [hdisk] at stores
    have hcalled : Called n k b.id
        [.sized k size, .fetched k bytes (.ok ()), .digested k (.ok digests)] w w' :=
      hcalled history (by simp [isAt])
    -- Two files were written, the archive and then the record.
    have hinserted := Metadata.insert?_spec hbacked.proper inserted
    refine ⟨m', ?_, ?_, hcalled.subset⟩
    · exact (hbacked.stored stores).recorded hinserted writes
    · have hstored := htraced.stored hcalled hcapable admits local_
        ((keeps_of_stores stores).of_stores_metadata writes) hinserted
        fun other bytes hne hkeeps => (hkeeps.of_stores hne stores).of_stores_metadata writes
      exact hstored.weaken And.left

/-- The invariant is kept by all transfers of an instance, by induction on the blobs that are
    left. -/
theorem traced_transferAll {ids : List Identifier} (bs : List (Blob F)) (k : Nat)
    (hids : ids.drop k = bs.map (·.id)) (hbacked : Backed a m w.disk)
    (htraced : Traced clean a m n k (some ids) w) (hlisted : ⟨n, .listed (.ok ids)⟩ ∈ w.history)
    (hcapable : ⟨n, .asked .backup (.ok true)⟩ ∈ w.history) :
    ∃ m' k', Backed a m' (transferAll a (observedBlobs n k (bs.map Blob.inFleet)) w).2.disk ∧
      Traced (clean ∧ (transferAll a (observedBlobs n k (bs.map Blob.inFleet)) w).1 = .ok ())
        a m' n k' (some ids) (transferAll a (observedBlobs n k (bs.map Blob.inFleet)) w).2 ∧
      ((transferAll a (observedBlobs n k (bs.map Blob.inFleet)) w).1 = .ok () →
        ids.length ≤ k') := by
  induction bs generalizing k m w clean with
  | nil =>
    have hlength : ids.length ≤ k := by simpa using hids
    exact ⟨m, k, hbacked, htraced.weaken And.left, fun _ => hlength⟩
  | cons b rest ih =>
    obtain ⟨hid, hrest⟩ := of_drop_eq_cons hids
    have hhere : w.history.Holds n k b.id := ⟨ids, hlisted, hid⟩
    rw [List.map_cons, observedBlobs, transferAll_cons, id_observed]
    rcases taking_run b.id w with ⟨hnamed, hclaimed, htaking⟩ | ⟨w₁, htaking, hfree, hdisk, hfleet,
      hclaimed⟩
    · -- Another instance has taken the blob.
      rw [bind_of_ok htaking, if_neg Bool.false_ne_true, bind_of_ok (Act.pure_apply () w)]
      exact ih (k + 1) hrest hbacked (htraced.passed hhere hnamed hclaimed) hlisted hcapable
    · obtain ⟨m', hbacked', htraced', hsub⟩ :=
        traced_transfer hbacked htraced b hhere hcapable hfree hdisk (congrArg Prod.snd hfleet)
          hclaimed
      rw [bind_of_ok htaking, if_pos rfl]
      cases htransfer : transfer a (b.inFleet.observed n k) w₁ with
      | mk outcome w' =>
        rw [htransfer] at hbacked' htraced' hsub
        cases outcome with
        | error halt =>
          -- What holds of clean runs only is not claimed any more.
          rw [bind_of_error htransfer]
          refine ⟨m', k + 1, hbacked', htraced'.weaken ?_, ?_⟩
          · rintro ⟨-, hc⟩
            cases hc
          · intro hc
            cases hc
        | ok _ =>
          rw [bind_of_ok htransfer]
          obtain ⟨m'', k', hbacked'', htraced'', hend⟩ :=
            ih (k + 1) hrest hbacked' htraced' (hsub hlisted) (hsub hcapable)
          refine ⟨m'', k', hbacked'', htraced''.weaken ?_, hend⟩
          rintro ⟨hclean, hok⟩
          exact ⟨⟨hclean, rfl⟩, hok⟩

end Blobs

/-! ### The turns of the instances -/

section Turns

variable {clean : Prop} {a : Artifact} {m : Metadata} {n : Nat} {w : World (F × History)}

theorem asked_run (i : Instance F) (phase : Phase) (w : World (F × History)) :
    ∃ w' answer, (i.inFleet.observed n).capable phase w = (answer, w') ∧ w'.disk = w.disk ∧
      w'.claimed = w.claimed ∧ w'.history = w.history ++ [⟨n, .asked phase answer⟩] :=
  ⟨_, _, rfl, rfl, rfl, rfl⟩

theorem acted_run (i : Instance F) (phase : Phase) (w : World (F × History)) :
    ∃ w' outcome, (i.inFleet.observed n).act phase w = (outcome, w') ∧ w'.disk = w.disk ∧
      w'.claimed = w.claimed ∧ w'.history = w.history ++ [⟨n, .acted phase outcome⟩] :=
  ⟨_, _, rfl, rfl, rfl, rfl⟩

theorem listed_run (i : Instance F) (w : World (F × History)) :
    ∃ w', w'.disk = w.disk ∧ w'.claimed = w.claimed ∧
      ((∃ halt, (i.inFleet.observed n).blobs w = (.error halt, w') ∧
          w'.history = w.history ++ [⟨n, .listed (.error halt)⟩]) ∨
        ∃ bs : List (Blob F),
          (i.inFleet.observed n).blobs w = (.ok (observedBlobs n 0 (bs.map Blob.inFleet)), w') ∧
          w'.history = w.history ++ [⟨n, .listed (.ok (bs.map (·.id)))⟩]) := by
  refine ⟨((i.inFleet.observed n).blobs w).2, rfl, rfl, ?_⟩
  have hlist : ((i.inFleet.observed n).blobs w).1 =
      ((i.blobs w.fleet.1).1.map (·.map Blob.inFleet)).map (observedBlobs n 0) := rfl
  have hnoted : ((i.inFleet.observed n).blobs w).2.history = w.history ++
      [⟨n, .listed (((i.blobs w.fleet.1).1.map (·.map Blob.inFleet)).map (·.map (·.id)))⟩] := rfl
  cases hblobs : (i.blobs w.fleet.1).1 with
  | error halt =>
    rw [hblobs] at hlist hnoted
    exact .inl ⟨halt, Prod.ext hlist rfl, hnoted⟩
  | ok bs =>
    rw [hblobs] at hlist hnoted
    refine .inr ⟨bs, Prod.ext hlist rfl, ?_⟩
    rw [hnoted]
    simp only [Except.map, List.map_map]
    rfl

/-- The turn of an instance of a fleet: it is asked whether it is capable of the phase, and behind
    that the operation is carried out or nothing happens. -/
theorem visit_fleet {phase : Phase}
    {operation : Instance (World (F × History)) → Act (World (F × History)) Unit}
    {R : List Call → Except Halt Unit → World (F × History) → Prop} (i : Instance F)
    (w : World (F × History))
    (hoperation : ∀ w₁, w₁.disk = w.disk → w₁.claimed = w.claimed → ∃ w₂ calls outcome,
      operation (i.inFleet.observed n) w₁ = (outcome, w₂) ∧
        w₂.history = w₁.history ++ calls.map (Event.mk n) ∧ phase.Operated calls outcome ∧
        R calls outcome w₂) :
    ∃ t : Turn, IsTurn phase operation n i.inFleet w t ∧
      let w' := (phase.visit operation (i.inFleet.observed n) w).2
      (t.answer ≠ .ok true ∧ w'.disk = w.disk ∧ w'.claimed = w.claimed ∨
        t.answer = .ok true ∧ R t.calls t.outcome w') := by
  obtain ⟨w₁, answer, hasked, hdisk₁, hclaimed₁, hhistory₁⟩ := asked_run (n := n) i phase w
  have hend {w' : World (F × History)} {outcome : Except Halt Unit}
      (hrun : phase.turn operation (i.inFleet.observed n) w = (outcome, w')) :
      (phase.visit operation (i.inFleet.observed n) w).2 = w' := by
    rw [Phase.visit_eq]
    exact congrArg Prod.snd hrun
  cases answer with
  | error halt =>
    have hrun : phase.turn operation (i.inFleet.observed n) w = (.error halt, w₁) :=
      bind_of_error hasked
    refine ⟨⟨.error halt, [], .error halt⟩, isTurn_of_run ⟨rfl, rfl⟩ hrun hhistory₁, .inl ?_⟩
    rw [hend hrun]
    exact ⟨nofun, hdisk₁, hclaimed₁⟩
  | ok able =>
    have hgoes : phase.turn operation (i.inFleet.observed n) w =
        (if able then operation (i.inFleet.observed n) else pure ()) w₁ := bind_of_ok hasked
    cases able with
    | false =>
      -- An instance that is not capable of the phase is left alone.
      refine ⟨⟨.ok false, [], .ok ()⟩, isTurn_of_run ⟨rfl, rfl⟩ hgoes hhistory₁, .inl ?_⟩
      rw [hend hgoes]
      exact ⟨nofun, hdisk₁, hclaimed₁⟩
    | true =>
      -- The question comes first in the history, and the operation's own calls behind it.
      obtain ⟨w₂, calls, outcome, hrun, hhistory₂, hoperated, hR⟩ := hoperation w₁ hdisk₁ hclaimed₁
      have hrun : phase.turn operation (i.inFleet.observed n) w = (outcome, w₂) :=
        hgoes.trans hrun
      refine ⟨⟨.ok true, calls, outcome⟩, isTurn_of_run hoperated hrun ?_, .inr ⟨rfl, ?_⟩⟩
      · rw [hhistory₂, hhistory₁, List.append_assoc]
        rfl
      · rw [hend hrun]
        exact hR

/-- The turn of one instance keeps the invariant: the instance is asked, it acts, and it lists
    the blobs that are stored. -/
theorem traced_turn (hbacked : Backed a m w.disk) (htraced : Traced clean a m n 0 none w)
    (i : Instance F) :
    ∃ m', Backed a m' (Phase.backup.turn (backUp a) (i.inFleet.observed n) w).2.disk ∧
      Traced (clean ∧ (Phase.backup.turn (backUp a) (i.inFleet.observed n) w).1 = .ok ())
        a m' (n + 1) 0 none (Phase.backup.turn (backUp a) (i.inFleet.observed n) w).2 := by
  -- The turn may end before a list is known; nothing was moved then.
  have hover {w' : World (F × History)} {why : Prop} (hdisk : w'.disk = w.disk)
      (htraced' : Traced clean a m n 0 none w') :
      ∃ m', Backed a m' w'.disk ∧ Traced (clean ∧ why) a m' (n + 1) 0 none w' := by
    refine ⟨m, ?_, (htraced'.next fun _ _ => nofun).weaken And.left⟩
    rw [hdisk]
    exact hbacked
  unfold Phase.turn
  obtain ⟨w₁, answer, hasked, hdisk₁, hclaimed₁, hhistory₁⟩ := asked_run (n := n) i .backup w
  have htraced₁ := htraced.quiet hdisk₁ hclaimed₁ hhistory₁ (by simp [History.movesNothing])
  cases answer with
  | error halt =>
    rw [bind_of_error hasked]
    exact hover hdisk₁ htraced₁
  | ok able =>
    rw [bind_of_ok hasked]
    cases able with
    | false => exact hover hdisk₁ htraced₁
    | true =>
      rw [if_pos rfl]
      unfold backUp
      obtain ⟨w₂, outcome, hacted, hdisk₂, hclaimed₂, hhistory₂⟩ := acted_run (n := n) i .backup w₁
      have htraced₂ := htraced₁.quiet hdisk₂ hclaimed₂ hhistory₂ (by simp [History.movesNothing])
      have hdisk₂ := hdisk₂.trans hdisk₁
      cases outcome with
      | error halt =>
        rw [bind_of_error hacted]
        exact hover hdisk₂ htraced₂
      | ok _ =>
        rw [bind_of_ok hacted]
        obtain ⟨w₃, hdisk₃, hclaimed₃, ⟨halt, hlisted, hhistory₃⟩ | ⟨bs, hlisted, hhistory₃⟩⟩ :=
          listed_run (n := n) i w₂
        · have htraced₃ := htraced₂.quiet hdisk₃ hclaimed₃ hhistory₃
            (by simp [History.movesNothing])
          rw [bind_of_error hlisted]
          exact hover (hdisk₃.trans hdisk₂) htraced₃
        · have htraced₃ := htraced₂.listing hdisk₃ hclaimed₃ hhistory₃
          have hbacked₃ : Backed a m w₃.disk := by
            rw [hdisk₃, hdisk₂]
            exact hbacked
          rw [bind_of_ok hlisted]
          obtain ⟨m', k', hbacked', htraced', hend⟩ := traced_transferAll bs 0 rfl hbacked₃ htraced₃
            (by rw [hhistory₃]; simp) (by rw [hhistory₃, hhistory₂, hhistory₁]; simp)
          refine ⟨m', hbacked', htraced'.next ?_⟩
          rintro ⟨-, hok⟩ ids hids
          cases hids
          exact hend hok

theorem traced_visit (hbacked : Backed a m w.disk) (htraced : Traced clean a m n 0 none w)
    (i : Instance F) :
    ∃ m', Backed a m' (Phase.backup.visit (backUp a) (i.inFleet.observed n) w).2.disk ∧
      Traced (clean ∧ (Phase.backup.visit (backUp a) (i.inFleet.observed n) w).1 = [])
        a m' (n + 1) 0 none (Phase.backup.visit (backUp a) (i.inFleet.observed n) w).2 := by
  obtain ⟨m', hbacked', htraced'⟩ := traced_turn hbacked htraced i
  unfold Phase.visit
  generalize Phase.backup.turn (backUp a) (i.inFleet.observed n) w = turned at hbacked' htraced'
  obtain ⟨halt | _, w'⟩ := turned
  · refine ⟨m', hbacked', htraced'.weaken ?_⟩
    rintro ⟨-, hc⟩
    cases hc
  · refine ⟨m', hbacked', htraced'.weaken ?_⟩
    rintro ⟨hclean, -⟩
    exact ⟨hclean, rfl⟩

/-- The turns of all instances keep the invariant, by induction on the instances. -/
theorem traced_sweep (is : List (Instance F)) (n : Nat) (hbacked : Backed a m w.disk)
    (htraced : Traced clean a m n 0 none w) :
    ∃ m' n', Backed a m'
        (Phase.backup.sweep (backUp a) (observedFrom n (is.map Instance.inFleet)) w).2.disk ∧
      Traced
        (clean ∧
          (Phase.backup.sweep (backUp a) (observedFrom n (is.map Instance.inFleet)) w).1 = [])
        a m' n' 0 none
        (Phase.backup.sweep (backUp a) (observedFrom n (is.map Instance.inFleet)) w).2 := by
  induction is generalizing n m w clean with
  | nil => exact ⟨m, n, hbacked, htraced.weaken And.left⟩
  | cons i rest ih =>
    obtain ⟨m', hbacked', htraced'⟩ := traced_visit hbacked htraced i
    obtain ⟨m'', n', hbacked'', htraced''⟩ := ih (n + 1) hbacked' htraced'
    rw [List.map_cons, observedFrom, Phase.sweep_cons]
    refine ⟨m'', n', hbacked'', htraced''.weaken ?_⟩
    rintro ⟨hclean, herrors⟩
    obtain ⟨hfirst, hothers⟩ := List.append_eq_nil_iff.mp herrors
    exact ⟨⟨hclean, hfirst⟩, hothers⟩

end Turns

/-! ### The phases -/

/-- Nothing was moved: the instances were only asked for what they are capable of, and acted. -/
structure Quiet (w w' : World (F × History)) : Prop where
  disk : w'.disk = w.disk
  claimed : w'.claimed = w.claimed
  history : ∃ events, w'.history = w.history ++ events ∧
    ∀ e ∈ events, History.movesNothing e.call

theorem keeping_quiet : Keeping (Quiet (F := F)) where
  refl := fun w => ⟨rfl, rfl, [], (List.append_nil _).symm, by simp⟩
  trans := by
    rintro w w' w'' ⟨hdisk, hclaimed, events, hhistory, hquiet⟩
      ⟨hdisk', hclaimed', events', hhistory', hquiet'⟩
    refine ⟨hdisk'.trans hdisk, hclaimed'.trans hclaimed, events ++ events', ?_, ?_⟩
    · rw [hhistory', hhistory, List.append_assoc]
    · intro e he
      rcases List.mem_append.mp he with he | he
      · exact hquiet e he
      · exact hquiet' e he

/-- A phase in which the instances only act moves nothing. -/
theorem quiet_enter_own (p : Progress) (state : State) (phase : Phase) (is : List (Instance F))
    (w : World (F × History)) :
    Quiet w (p.enter state phase phase.own (observedFrom 0 (is.map Instance.inFleet)) w).2 := by
  have hmember {i : Instance (World (F × History))}
      (hi : i ∈ observedFrom 0 (is.map Instance.inFleet)) :
      ∃ j, ∃ i' : Instance F, i = i'.inFleet.observed j := by
    obtain ⟨j, i', hi', rfl⟩ := mem_observedFrom hi
    rw [List.getElem?_map, Option.map_eq_some_iff] at hi'
    obtain ⟨i'', -, rfl⟩ := hi'
    exact ⟨_, i'', rfl⟩
  rw [enter_eq]
  refine steps_sweep keeping_quiet ?_ ?_ w
  · intro i hi w
    obtain ⟨j, i', rfl⟩ := hmember hi
    obtain ⟨w', answer, hrun, hdisk, hclaimed, hhistory⟩ := asked_run (n := j) i' phase w
    rw [hrun]
    exact ⟨hdisk, hclaimed, _, hhistory, by simp [History.movesNothing]⟩
  · intro i hi w
    obtain ⟨j, i', rfl⟩ := hmember hi
    obtain ⟨w', outcome, hrun, hdisk, hclaimed, hhistory⟩ := acted_run (n := j) i' phase w
    show Quiet w ((i'.inFleet.observed j).act phase w).2
    rw [hrun]
    exact ⟨hdisk, hclaimed, _, hhistory, by simp [History.movesNothing]⟩

section Phases

variable {a : Artifact} {m : Metadata} {w : World (F × History)}

theorem Traced.after {clean : Prop} {n : Nat} {w' : World (F × History)}
    (htraced : Traced clean a m n 0 none w) (hquiet : Quiet w w') :
    Traced clean a m n 0 none w' := by
  obtain ⟨hdisk, hclaimed, events, hhistory, hmoves⟩ := hquiet
  exact htraced.quiet hdisk hclaimed hhistory hmoves

theorem Backed.after {w' : World (F × History)} (hbacked : Backed a m w.disk)
    (hquiet : Quiet w w') :
    Backed a m w'.disk := by
  rw [hquiet.disk]
  exact hbacked

/-- The data phase keeps the invariant, also when it is left out. -/
theorem traced_moved (policy : Policy) (is : List (Instance F)) {p : Progress}
    (hbacked : Backed a m w.disk) (htraced : Traced True a m 0 0 none w) :
    ∃ m' n' errors,
      Backed a m' (moved policy backupPlan (backUp a) (observedFrom 0 (is.map Instance.inFleet))
        (p, w)).2.disk ∧
      (moved policy backupPlan (backUp a) (observedFrom 0 (is.map Instance.inFleet))
        (p, w)).1.errors = p.errors ++ errors ∧
      (∀ e ∈ errors, e.phase = .backup) ∧
      Traced (errors = []) a m' n' 0 none
        (moved policy backupPlan (backUp a) (observedFrom 0 (is.map Instance.inFleet))
          (p, w)).2 := by
  unfold moved
  split
  · refine ⟨m, 0, [], hbacked, (List.append_nil _).symm, by simp, ?_⟩
    exact htraced.weaken fun _ => trivial
  · obtain ⟨m', n', hbacked', htraced'⟩ := traced_sweep is 0 hbacked htraced
    rw [enter_eq]
    refine ⟨m', n', _, hbacked', rfl, fun e he => phase_of_mem_sweep he, ?_⟩
    exact htraced'.weaken fun hnone => ⟨trivial, hnone⟩

theorem free_of_enter {W : Type} {p : Progress} {state : State} {phase : Phase}
    {operation : Instance W → Act W Unit} {is : List (Instance W)} {w : W}
    (hfree : (p.enter state phase operation is w).1.isBlocked = false) : p.isBlocked = false := by
  rw [enter_eq] at hfree
  unfold Progress.isBlocked PhaseErrors.blocking at *
  rw [Bool.not_eq_false', List.isEmpty_iff] at *
  rw [List.filter_append] at hfree
  exact (List.append_eq_nil_iff.mp hfree).1

/-- A failure to move data makes the run fail. -/
theorem nothing_failed {p : Progress} {before errors : PhaseErrors}
    (herrors : p.errors = before ++ errors) (hphase : ∀ e ∈ errors, e.phase = .backup)
    (hfree : p.isBlocked = false) : errors = [] := by
  rw [List.eq_nil_iff_forall_not_mem]
  intro e he
  unfold Progress.isBlocked PhaseErrors.blocking at hfree
  rw [Bool.not_eq_false', List.isEmpty_iff, herrors, List.filter_eq_nil_iff] at hfree
  apply hfree e (List.mem_append_right _ he)
  rw [hphase e he]
  rfl

/-- The walk keeps the invariant. -/
theorem traced_drive (policy : Policy) (is : List (Instance F)) (hbacked : Backed a m w.disk)
    (htraced : Traced True a m 0 0 none w) :
    ∃ m' n',
      Backed a m' (drive policy backupPlan (backUp a) (observedFrom 0 (is.map Instance.inFleet))
        w).2.disk ∧
      Traced ((drive policy backupPlan (backUp a) (observedFrom 0 (is.map Instance.inFleet))
          w).1.isBlocked = false) a m' n' 0 none
        (drive policy backupPlan (backUp a) (observedFrom 0 (is.map Instance.inFleet)) w).2 := by
  rw [drive_eq]
  -- The phases one behind the other: only the data phase streams, so the others leave what is
  -- traced as it is.
  have hlock := quiet_enter_own .start .locking backupPlan.lock is w
  generalize Progress.start.enter .locking backupPlan.lock backupPlan.lock.own
    (observedFrom 0 (is.map Instance.inFleet)) w = locked at hlock ⊢
  obtain ⟨p, w₁⟩ := locked
  obtain ⟨m', n', errors, hbacked', herrors, hphase, htraced'⟩ := traced_moved policy is (p := p)
    (hbacked.after hlock) (htraced.after hlock)
  simp only at hbacked' herrors htraced' ⊢
  generalize moved policy backupPlan (backUp a) (observedFrom 0 (is.map Instance.inFleet)) (p, w₁) =
    data at hbacked' herrors htraced' ⊢
  have hunlock := quiet_enter_own data.1 .unlocking backupPlan.unlock is data.2
  generalize hunlocked : data.1.enter .unlocking backupPlan.unlock backupPlan.unlock.own
    (observedFrom 0 (is.map Instance.inFleet)) data.2 = unlocked at hunlock ⊢
  have hclean := quiet_enter_own unlocked.1 .cleanup .cleanup is unlocked.2
  refine ⟨m', n', (hbacked'.after hunlock).after hclean,
    ((htraced'.after hunlock).after hclean).weaken ?_⟩
  -- A run that is not blocked in the end was not blocked before, and so the data phase was clean.
  intro hfree
  have hfree := free_of_enter hfree
  rw [← hunlocked] at hfree
  exact nothing_failed herrors hphase (free_of_enter hfree)

end Phases

/-! ### Runs -/

theorem traced_first (a : Artifact) (start : Instant) {w : World (F × History)}
    (hhistory : w.history = []) (hclaimed : w.claimed = []) :
    Traced True a (firstRecord start) 0 0 none w where
  listings := by
    rw [hhistory]
    intro n ids hmem
    cases hmem
  visited := by
    rw [hhistory]
    rintro n k ⟨call, -, hmem⟩
    cases hmem
  claims := by
    rw [hhistory]
    rintro n k blob - ⟨call, -, hmem⟩
    cases hmem
  known := fun blob hblob => by cases hblob
  earned := fun _ _ e he => by cases he
  spoiled := fun _ n k blob _ _ hblob => by cases hblob
  settled := by
    rw [hclaimed]
    intro _ blob hblob
    cases hblob
  covered := by
    rw [hhistory]
    rintro - n k blob ⟨ids, hmem, -⟩
    cases hmem
  single := by
    rw [hhistory]
    rintro - n₁ k₁ n₂ k₂ blob ⟨ids, hmem, -⟩
    cases hmem

section Runs

variable {d : Deployment F ε} {policy : Policy} {path : String} {start finish : Instant}
  {w : World F} {is : List (Instance F)} {manifest : String} {a : Artifact} {disk : Disk}

/-- To record the finish changes nothing else, and it always succeeds. -/
theorem traced_finished {m : Metadata} {n : Nat} {driven : Progress × World (F × History)}
    (hbacked : Backed a m driven.2.disk)
    (htraced : Traced (driven.1.isBlocked = false) a m n 0 none driven.2) (finish : Instant)
    (path : String) :
    ∃ m', Backed a m' (finished (ε := ε) a finish path driven).2.disk ∧
      Traced (∃ report, (finished (ε := ε) a finish path driven).1 = .ok report) a m' n 0 none
        (finished (ε := ε) a finish path driven).2 := by
  obtain ⟨disk', hfinish, hstores⟩ := addFinishTime_stores hbacked.sound hbacked.record finish
  unfold finished
  rw [hfinish]
  have hkeeps {blob : Identifier} {bytes : Bytes} (hkept : a.Keeps blob bytes driven.2.disk) :
      a.Keeps blob bytes disk' := hkept.of_stores_metadata hstores
  -- A report of success means that nothing was blocked.
  have hfree (hok : ∃ report, driven.1.finish (ε := ε) path = .ok report) :
      driven.1.isBlocked = false := by
    obtain ⟨report, hok⟩ := hok
    unfold Progress.finish at hok
    cases hblocked : driven.1.isBlocked with
    | false => rfl
    | true =>
      rw [hblocked] at hok
      cases hok
  refine ⟨{ m with finishTime := some finish.stamp }, hbacked.finished hstores, ?_⟩
  have hweak := htraced.weaken hfree
  exact
    { listings := hweak.listings
      visited := hweak.visited
      claims := hweak.claims
      known := hweak.known
      earned := by
        intro hapart hwhy e he
        obtain ⟨n', k', bytes, hearned, hfirst⟩ := hweak.earned hapart hwhy e he
        exact ⟨n', k', bytes, hearned.mono (List.Subset.refl _) (hkeeps hearned.keeps), hfirst⟩
      spoiled := hweak.spoiled
      settled := hweak.settled
      covered := hweak.covered
      single := hweak.single }

/-- At its end, every run leaves a record that the invariant is true of. -/
theorem traced_backup (hinstances : d.instances w.fleet = .ok is)
    (hmanifest : d.manifest w.fleet = .ok manifest)
    (hprepare : prepare path manifest start w.disk = (.ok a, disk)) (hlinks : a.HoldsNoLink disk) :
    ∃ m n, Backed a m (backup d.inFleet policy path start finish w).2.disk ∧
      Traced (∃ report, (backup d.inFleet policy path start finish w).1 = .ok report) a m n 0 none
        (backup d.inFleet.observed policy path start finish (w.noting [])).2 := by
  obtain ⟨hresult, hworld⟩ := backup_observed d.inFleet policy path start finish w
  rw [← hresult, ← hworld, World.disk_seen,
    backup_eq (observed_instances_ok (inFleet_instances hinstances)) hmanifest hprepare]
  have hbacked := backed_of_prepare hprepare hlinks
  have htraced : Traced True a (firstRecord start) 0 0 none
      (World.mk disk [] (w.fleet, ([] : History))) := traced_first a start rfl rfl
  obtain ⟨m, n, hdriven, htraced⟩ := traced_drive policy is hbacked htraced
  obtain ⟨m', hbacked', htraced'⟩ := traced_finished (ε := ε) hdriven htraced finish path
  exact ⟨m', n, hbacked', htraced'⟩

end Runs

end DeploymentBackup.Workflow
