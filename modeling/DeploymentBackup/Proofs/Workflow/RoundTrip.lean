import DeploymentBackup.Proofs.Identifier
import DeploymentBackup.Proofs.Workflow.Completion
import DeploymentBackup.Proofs.Workflow.Delivery
import DeploymentBackup.Proofs.Workflow.Linked

namespace DeploymentBackup.Workflow

open Text Artifact

/-!
# Backup and restore

What a completed backup has stored of a faithful deployment passes all checks of a restore into
this deployment, whatever has become of its data in the meantime, and every blob gets back what
was stored under its identifier.

* `inspectAll_faithful` — what the instances hold.
* `compatible_of_stock`, `restorable_of_faithful` — the checks before the phases.
* `restore_of_stock`, `restore_of_completed` — the phases.
* `restore_of_backup` — the round trip.
* `restore_failed_over_link` — an artifact from which nothing is given back.
* `phases_walked` — the history and the report of both workflows.
-/

variable {F ε : Type}

/-! ### Before the phases -/

/-- What a faithful instance is found to hold. -/
def holdingOf (held : Nat → List Identifier) (member : Instance F × Nat) : Holding :=
  ⟨member.1.id, (held member.2).any (! ·.isNamed), !(held member.2).isEmpty,
    !(held member.2).isEmpty⟩

section Checks

variable {streams holds : F → Contents} {held : Nat → List Identifier}

theorem inspectOne_faithful {n : Nat} {i : Instance F} (hi : i.Faithful streams holds n (held n))
    (w : World F) : (inspectOne i.inFleet w).1 = .ok (holdingOf held (i, n)) := by
  obtain ⟨bs, hbs, hids, -⟩ := hi.lists w.fleet
  have hlisted : i.inFleet.blobs w =
      (.ok (bs.map Blob.inFleet), { w with fleet := (i.blobs w.fleet).2 }) := by
    show ((i.blobs w.fleet).1.map (·.map Blob.inFleet), _) = _
    rw [hbs]
    rfl
  have hany : (bs.map Blob.inFleet).any (! ·.id.isNamed) = (held n).any (! ·.isNamed) := by
    rw [← hids, List.any_map, List.any_map]
    rfl
  rw [inspectOne_eq, bind_of_ok hlisted]
  simp only [hany]
  -- An instance without blobs is not asked whether it can be restored.
  cases bs with
  | nil =>
    have hnone : held n = [] := hids.symm
    rw [holdingOf, hnone]
    rfl
  | cons b rest =>
    have hne : held n ≠ [] := by
      rw [← hids]
      exact List.cons_ne_nil _ _
    have hcapable : i.inFleet.capable .restore { w with fleet := (i.blobs w.fleet).2 } =
        (.ok true, { w with fleet := (i.capable .restore (i.blobs w.fleet).2).2 }) :=
      Prod.ext (hi.movable hne (i.blobs w.fleet).2).2 rfl
    rw [if_neg (by simp), bind_of_ok hcapable]
    have hempty : (held n).isEmpty = false := List.isEmpty_eq_false_iff.mpr hne
    rw [holdingOf, hempty]
    rfl

/-- All faithful instances answer, by induction on the instances. -/
theorem inspectAll_faithful (is : List (Instance F)) (number n : Nat)
    (hi : ∀ j (i : Instance F), is[j]? = some i → i.Faithful streams holds (n + j) (held (n + j)))
    (w : World F) :
    (inspectAll number (is.map Instance.inFleet) w).1 =
      ((is.zipIdx n).map (holdingOf held), []) := by
  induction is generalizing number n w with
  | nil => rfl
  | cons i rest ih =>
    have hfirst := inspectOne_faithful (hi 0 i rfl) w
    have hothers := ih (number + 1) (n + 1)
      (tail_places (P := fun n (i : Instance F) => i.Faithful streams holds n (held n)) hi)
      (inspectOne i.inFleet w).2
    rw [List.map_cons, inspectAll_cons]
    simp only [hfirst, hothers]
    rfl

variable {a : Artifact} {m : Metadata} {contents : Contents} {h : History} {disk : Disk}
  {is : List (Instance F)}

/-- The instances that hold a blob of their own. -/
def owners (held : Nat → List Identifier) (is : List (Instance F)) : List Identifier :=
  ((is.zipIdx.map (holdingOf held)).filter (·.holdsOwnData)).map (·.id)

theorem mem_owners {id : Identifier} :
    id ∈ owners held is ↔ ∃ n, ∃ i : Instance F, is[n]? = some i ∧ i.id = id ∧
      ∃ blob ∈ held n, blob.isNamed = false := by
  unfold owners
  simp only [List.mem_map, List.mem_filter, holdingOf]
  constructor
  · rintro ⟨-, ⟨⟨⟨i, n⟩, hmem, rfl⟩, hown⟩, rfl⟩
    refine ⟨n, i, List.mem_zipIdx_iff_getElem?.mp hmem, rfl, ?_⟩
    simpa using hown
  · rintro ⟨n, i, hi, rfl, hown⟩
    refine ⟨holdingOf held (i, n), ⟨⟨(i, n), List.mem_zipIdx_iff_getElem?.mpr hi, rfl⟩, ?_⟩, rfl⟩
    simpa [holdingOf] using hown

/-- An instance holds its own blob under its own identifier. -/
theorem own_at (hfaithful : Faithful streams holds held is) {n : Nat} {i : Instance F}
    (hi : is[n]? = some i) {blob : Identifier} (hblob : blob ∈ held n)
    (hnamed : blob.isNamed = false) : blob = i.id ∧ ∃ k : Nat, (held n)[k]? = some i.id := by
  obtain rfl := (hfaithful.members n i hi).own blob hblob hnamed
  obtain ⟨k, hlt, hget⟩ := List.getElem_of_mem hblob
  exact ⟨rfl, k, by rw [List.getElem?_eq_getElem hlt, hget]⟩

theorem nodup_owners (hfaithful : Faithful streams holds held is)
    (hstock : Stock a m held contents h disk) : (owners held is).Nodup := by
  have hzip : is.zipIdx.Nodup := by
    apply List.Nodup.of_map Prod.snd
    rw [List.zipIdx_map_snd]
    exact List.nodup_range'
  unfold owners
  rw [List.filter_map, List.map_map]
  refine (hzip.filter _).map_on ?_
  rintro ⟨i, n⟩ hmem ⟨i', n'⟩ hmem' heq
  simp only [List.mem_filter, List.mem_zipIdx_iff_getElem?, Function.comp, holdingOf,
    List.any_eq_true, Bool.not_eq_true'] at hmem hmem' heq
  obtain ⟨hi, blob, hblob, hnamed⟩ := hmem
  obtain ⟨hi', blob', hblob', hnamed'⟩ := hmem'
  obtain ⟨rfl, k, hk⟩ := own_at hfaithful hi hblob hnamed
  obtain ⟨rfl, k', hk'⟩ := own_at hfaithful hi' hblob' hnamed'
  rw [← heq] at hk'
  obtain ⟨rfl, -⟩ := hstock.single _ _ _ _ _ hk hk' hnamed
  rw [hi] at hi'
  cases hi'
  rfl

/-- The recorded instances are those that hold a blob of their own, in some order. -/
theorem owners_perm (hfaithful : Faithful streams holds held is)
    (hstock : Stock a m held contents h disk) : m.instanceIdentifiers.Perm (owners held is) := by
  have hbacked := hstock.backed
  refine (List.perm_ext_iff_of_nodup (Metadata.nodup_instanceIdentifiers hbacked.once)
    (nodup_owners hfaithful hstock)).mpr fun id => ?_
  rw [Metadata.mem_instanceIdentifiers hbacked.proper, mem_owners]
  constructor
  · rintro ⟨hrecorded, hnamed⟩
    obtain ⟨e, he, rfl⟩ := List.mem_map.mp hrecorded
    obtain ⟨n, k, horigin⟩ := hstock.origins e he
    have hblob := List.mem_of_getElem? horigin.here
    have hlt := hfaithful.within n (List.ne_nil_of_mem hblob)
    have hi := List.getElem?_eq_getElem hlt
    exact ⟨n, is[n], hi, (own_at hfaithful hi hblob hnamed).1.symm, e.1, hblob, hnamed⟩
  · rintro ⟨n, i, hi, rfl, blob, hblob, hnamed⟩
    obtain ⟨rfl, k, hk⟩ := own_at hfaithful hi hblob hnamed
    exact ⟨hstock.covers n k _ hk, hnamed⟩

theorem compatible_of_stock (hfaithful : Faithful streams holds held is)
    (hstock : Stock a m held contents h disk) :
    checkCompatibility (ε := ε) a (is.zipIdx.map (holdingOf held)) disk = .ok () := by
  have hbacked := hstock.backed
  have hmetadata := metadata_of_hasRecord hbacked.sound hbacked.record
  have hagrees : a.agreesWith (owners held is) disk = .ok true := by
    unfold agreesWith instanceIdentifiers
    rw [hmetadata]
    have hsame := (Identifier.sort_eq_sort_iff _ _).mpr (owners_perm hfaithful hstock)
    simp only [Except.map, hsame, decide_true]
  have hpresent : ((is.zipIdx.map (holdingOf held)).filter (·.holdsOwnData)).map (·.id) =
      owners held is := rfl
  unfold checkCompatibility
  simp only [hpresent, hagrees]

theorem restorable_of_faithful (held : Nat → List Identifier) (is : List (Instance F)) :
    checkRestorable (ε := ε) (is.zipIdx.map (holdingOf held)) = .ok () := by
  have hnone : (is.zipIdx.map (holdingOf held)).filter (fun h => h.holdsData && !h.restorable) =
      [] := by
    refine List.filter_eq_nil_iff.mpr fun holding hmem => ?_
    obtain ⟨member, -, rfl⟩ := List.mem_map.mp hmem
    simp [holdingOf]
  unfold checkRestorable
  rw [hnone]
  rfl

end Checks

/-! ### The round trip -/

section

variable {d : Deployment F ε} {policy : Policy} {path : String} {start finish : Instant}
  {w w' : World F} {is : List (Instance F)} {manifest : String} {a : Artifact} {m : Metadata}
  {disk : Disk} {report : Report} {held : Nat → List Identifier} {streams holds : F → Contents}
  {contents : Contents} {h : History} {target : Contents}

/-- From a stock, a faithful deployment is restored: all checks are passed, the restore is
    completed, and every blob is given the bytes that the artifact has for it. -/
theorem restore_of_stock (hfaithful : Faithful streams holds held is)
    (hinstances : d.instances w.fleet = .ok is) (hopen : openAt w.disk path = .ok a)
    (hstock : Stock a m held contents h w.disk)
    (hsupply : ∀ n k blob, (held n)[k]? = some blob → Supply a m w.disk blob (target n k))
    (policy : Policy) :
    (∃ report, (restore d.inFleet policy path w).1 = .ok report ∧ report.state = .completed) ∧
      Delivers streams holds target (fun n k => k < (held n).length) (w.noting [])
        (restore d.inFleet.observed policy path (w.noting [])).2 := by
  have hi : ∀ j (i : Instance F), is[j]? = some i →
      i.Faithful streams holds (0 + j) (held (0 + j)) := by
    intro j i hj
    rw [Nat.zero_add]
    exact hfaithful.members j i hj
  -- All instances are asked, and that leaves everything as it is.
  obtain ⟨hfound, -⟩ := inspect_observed (ε := ε) (is.map Instance.inFleet) (w.noting [])
  have hinspect : (inspect (ε := ε) (is.map Instance.inFleet) w).1 =
      .ok (is.zipIdx.map (holdingOf held)) := by
    rw [inspect_eq]
    simp only [inspectAll_faithful is 1 0 hi w]
    rfl
  rw [World.seen_noting, hinspect] at hfound
  have hidle : Idle streams holds target (w.noting [])
      (inspect (ε := ε) (observedFrom 0 (is.map Instance.inFleet)) (w.noting [])).2 := by
    rw [inspect_eq]
    refine steps_inspectAll keeping_idle ?_ 1 _
    intro i hmem
    obtain ⟨n, i', hi', rfl⟩ := mem_observedFrom hmem
    rw [List.getElem?_map, Option.map_eq_some_iff] at hi'
    obtain ⟨i'', hi'', rfl⟩ := hi'
    have hmember := hi n i'' hi''
    exact ⟨fun phase w => idle_call rfl (hmember.capable phase w.fleet.1) rfl,
      fun phase w => idle_call rfl (hmember.act phase w.fleet.1) rfl,
      fun w => idle_call rfl (hmember.blobs w.fleet.1) rfl⟩
  rw [← (restore_observed d.inFleet policy path w).1,
    restore_eq (observed_instances_ok (inFleet_instances hinstances)) hopen]
  simp only [hfound]
  generalize (inspect (ε := ε) (observedFrom 0 (is.map Instance.inFleet)) (w.noting [])).2 = asked
    at hidle ⊢
  have hdisk : asked.disk = w.disk := hidle.disk
  have hcompatible : checkCompatibility (ε := ε) a (is.zipIdx.map (holdingOf held)) asked.disk =
      .ok () := by
    rw [hdisk]
    exact compatible_of_stock hfaithful hstock
  rw [hcompatible, restorable_of_faithful]
  obtain ⟨p, w₁, hdrive, hfree, hdelivers⟩ := drive_delivers (m := m) policy hfaithful
    (by rw [hdisk]; exact hstock.backed) (by rw [hdisk]; exact hsupply)
  simp only [hdrive]
  refine ⟨?_, hdelivers.of_idle hidle⟩
  unfold Progress.finish
  rw [hfree]
  exact ⟨_, rfl, rfl⟩

/-- From the artifact of a completed backup, every place of a faithful deployment is supplied from
    the origin of the blob that is held there. -/
theorem restore_of_completed (hfaithful : Faithful streams holds held is)
    (hinstances : d.instances w.fleet = .ok is) (hmanifest : d.manifest w.fleet = .ok manifest)
    (hprepare : prepare path manifest start w.disk = (.ok a, disk))
    (hlinks : a.HoldsNoLink disk)
    (hcompleted : (backup d.inFleet policy path start finish w).1 = .ok report)
    (hdisk : w'.disk = (backup d.inFleet policy path start finish w).2.disk)
    (hinstances' : d.instances w'.fleet = .ok is) (policy' : Policy) :
    ∃ (m : Metadata) (member position : Nat → Nat → Nat),
      Stock a m held (streams w.fleet) (backupHistory d.inFleet policy path start finish w)
        w'.disk ∧
      (∀ (n k : Nat) (blob : Identifier), (held n)[k]? = some blob → ∃ digests,
        Origin a held (streams w.fleet) (backupHistory d.inFleet policy path start finish w)
          w'.disk (member n k) (position n k) (blob, digests)) ∧
      (∃ report', (restore d.inFleet policy' path w').1 = .ok report' ∧
        report'.state = .completed) ∧
      Delivers streams holds (fun n k => streams w.fleet (member n k) (position n k))
        (fun n k => k < (held n).length) (w'.noting [])
        (restore d.inFleet.observed policy' path (w'.noting [])).2 := by
  obtain ⟨m, hstock⟩ := stock_of_completed hfaithful hinstances
    hmanifest hprepare hlinks hcompleted
  rw [← hdisk] at hstock
  -- For every place there is an origin of the blob that is held there.
  have horigin : ∀ n k : Nat, ∃ n₀ k₀, ∀ blob, (held n)[k]? = some blob →
      ∃ digests, (blob, digests) ∈ m.recorded ∧
        Origin a held (streams w.fleet) (backupHistory d.inFleet policy path start finish w) w'.disk
          n₀ k₀ (blob, digests) := by
    intro n k
    cases hblob : (held n)[k]? with
    | none => exact ⟨0, 0, fun blob hc => by cases hc⟩
    | some blob =>
      obtain ⟨e, he, rfl⟩ := List.mem_map.mp (hstock.covers n k blob hblob)
      obtain ⟨n₀, k₀, horigin⟩ := hstock.origins e he
      refine ⟨n₀, k₀, fun blob' hc => ?_⟩
      cases hc
      exact ⟨e.2, he, horigin⟩
  choose member position horigin using horigin
  have hsupply : ∀ (n k : Nat) (blob : Identifier), (held n)[k]? = some blob →
      Supply a m w'.disk blob (streams w.fleet (member n k) (position n k)) := by
    intro n k blob hblob
    obtain ⟨digests, hrecorded, horigin⟩ := horigin n k blob hblob
    exact ⟨horigin.admits, horigin.keeps, digests, hrecorded, horigin.stored⟩
  have hopen : openAt w'.disk path = .ok a := by
    rw [← path_of_prepare hprepare]
    exact hstock.backed.opens
  obtain ⟨hreport, hdelivers⟩ := restore_of_stock hfaithful hinstances' hopen hstock
    hsupply policy'
  refine ⟨m, member, position, hstock, ?_, hreport, hdelivers⟩
  intro n k blob hblob
  obtain ⟨digests, -, horigin⟩ := horigin n k blob hblob
  exact ⟨digests, horigin⟩

end

/-! ### Both workflows walk -/

/-- Two instances that share a blob are backed up, and restored when nothing is left of what they
    held. What they share is streamed by the first one, and given to the second one as well. -/
theorem restore_sharers :
    let d := Deployment.kept sharers
    let w : World Contents := ⟨Disk.fresh, [], archivedPlaces⟩
    let run := backup d.inFleet .failFast "x" ⟨0, false⟩ ⟨1, false⟩ w
    let lost : World Contents := { run.2 with fleet := fun _ _ => [] }
    (∃ a disk, prepare "x" "" ⟨0, false⟩ w.disk = (.ok a, disk)) ∧
      Reports (restore d.inFleet .failFast "x" lost).1 ∧
      ⟨0, .fetched 1 (archivedPlaces 0 1) (.ok ())⟩ ∈
        backupHistory d.inFleet .failFast "x" ⟨0, false⟩ ⟨1, false⟩ w ∧
      ⟨1, .replaced 0 (.of (archivedPlaces 0 1)) (.ok ())⟩ ∈
        restoreHistory d.inFleet .failFast "x" lost := by
  intro d w run lost
  obtain ⟨a, disk, report, hprepare, hlinks, hcompleted⟩ :=
    backup_kept distinct_sharers storable_sharers .failFast ⟨0, false⟩ ⟨1, false⟩
  obtain ⟨-, member, position, -, horigin, ⟨report', hrestored, -⟩, hdelivers⟩ :=
    restore_of_completed (d := d) (w := w) distinct_sharers.faithful rfl rfl hprepare hlinks
      hcompleted (rfl : lost.disk = run.2.disk) rfl .failFast
  obtain ⟨digests, horigin⟩ := horigin 1 0 _ rfl
  have hgiven := (hdelivers.given 1 0 (by decide)).2
  have hfetched := horigin.fetched
  obtain ⟨hmember, hposition⟩ := first_of_sharers horigin.here horigin.first
  rw [hmember, hposition] at hgiven hfetched
  exact ⟨⟨a, disk, hprepare⟩, ⟨report', .inl hrestored⟩, hfetched, hgiven⟩

/-- Every run that enters its phases walks through them: the phases are those of the plan, one
    behind the other, with one turn for each instance, in which the operation is carried out
    if and only if the instance is capable of the phase. Only the data phase is left out, when
    the policy says so and an instance could not be locked. Then the run ends with the report
    of this walk; a backup in which nothing failed may end with the failure to record its
    finish instead. -/
theorem phases_walked :
    (∀ (d : Deployment (World F) ε) (policy : Policy) (path : String) (start finish : Instant)
        (w : World F) (is : List (Instance (World F))) (manifest : String) (a : Artifact)
        (disk : Disk),
      d.instances w = .ok is → d.manifest w = .ok manifest →
      prepare path manifest start w.disk = (.ok a, disk) →
      ∃ k : Walk, k.Of policy backupPlan is.length ∧
        backupHistory d policy path start finish w = k.history backupPlan ∧
        ((backup d policy path start finish w).1 = k.ending backupPlan (is.map (·.id)) path ∨
          k.blocking backupPlan (is.map (·.id)) = [] ∧ ∃ fault,
            a.addFinishTime finish (backup d policy path start finish w).2.disk = .error fault ∧
            (backup d policy path start finish w).1 = .error (.artifact fault))) ∧
    (∀ (d : Deployment (World F) ε) (policy : Policy) (path : String) (w : World F),
      Reports (restore d policy path w).1 →
      ∃ (is : List (Instance (World F))) (vs : List Inspection) (k : Walk),
        d.instances w = .ok is ∧ vs.length = is.length ∧ (∀ v ∈ vs, v.Of) ∧
        k.Of policy restorePlan is.length ∧
        restoreHistory d policy path w = Inspection.historyOf 0 vs ++ k.history restorePlan ∧
        (restore d policy path w).1 = k.ending restorePlan (is.map (·.id)) path) := by
  refine ⟨?_, ?_⟩
  · intro d policy path start finish w is manifest a disk hinstances hmanifest hprepare
    exact backup_walked policy finish hinstances hmanifest hprepare
  · intro d policy path w h
    exact restore_walked h

/-- Two instances that share a blob walk through the phases of a backup and of a restore. In the
    data phases the blob is streamed by the first one, and given to the second one as well. -/
theorem phases_walked_kept :
    let d := (Deployment.kept sharers).inFleet
    let w : World Contents := ⟨Disk.fresh, [], archivedPlaces⟩
    let run := backup d .failFast "x" ⟨0, false⟩ ⟨1, false⟩ w
    let lost : World Contents := { run.2 with fleet := fun _ _ => [] }
    (∃ k : Walk, k.Of .failFast backupPlan 2 ∧
      backupHistory d .failFast "x" ⟨0, false⟩ ⟨1, false⟩ w = k.history backupPlan ∧
      ⟨0, .fetched 1 (archivedPlaces 0 1) (.ok ())⟩ ∈ k.history backupPlan) ∧
    ∃ (vs : List Inspection) (k : Walk), k.Of .failFast restorePlan 2 ∧
      restoreHistory d .failFast "x" lost = Inspection.historyOf 0 vs ++ k.history restorePlan ∧
      ⟨1, .replaced 0 (.of (archivedPlaces 0 1)) (.ok ())⟩ ∈ k.history restorePlan := by
  intro d w run lost
  obtain ⟨⟨a, disk, hprepare⟩, hreports, hfetched, hgiven⟩ := restore_sharers
  obtain ⟨hbackup, hrestore⟩ := phases_walked (F := Contents) (ε := Unit)
  refine ⟨?_, ?_⟩
  · obtain ⟨k, hof, hhistory, -⟩ := hbackup d .failFast "x" ⟨0, false⟩ ⟨1, false⟩ w _ "" a disk
      rfl rfl hprepare
    exact ⟨k, hof, hhistory, hhistory ▸ hfetched⟩
  · obtain ⟨is, vs, k, hinstances, -, -, hof, hhistory, -⟩ := hrestore d .failFast "x" lost hreports
    cases hinstances
    rw [hhistory] at hgiven
    exact ⟨vs, k, hof, hhistory, mem_phases hgiven rfl⟩
end DeploymentBackup.Workflow
