import DeploymentBackup.Proofs.Workflow.Fleet
import DeploymentBackup.Proofs.Workflow.History
import DeploymentBackup.Proofs.Workflow.Runs
import DeploymentBackup.Proofs.Workflow.Trace

namespace DeploymentBackup

open Text Workflow

/-!
# Faithful deployments

In a faithful deployment nothing goes wrong but what a workflow does itself: every instance
answers and acts, it always holds the same blobs, and each blob streams what it has, takes what
it receives, and reports the digests of what it holds.

* `Blob.Faithful`, `Instance.Faithful`, `Faithful` — what the members do.
* `faithful_kept`, `Distinct` — there are such deployments.
* `Truthful` — what their answers say.
* `history_truthful` — all answers in a backup say so.
-/

variable {F ε : Type}

section

variable (streams holds : F → Contents)

/-- Neither what the blobs stream nor what they hold has changed. -/
structure Leaves (f f' : F) : Prop where
  same_streams : streams f' = streams f
  same_holds : holds f' = holds f

/-- The blob `k` of the instance `n` streams without a failure, takes all that it receives, and
    reports the digests of what it holds. -/
structure Blob.Faithful (n k : Nat) (b : Blob F) : Prop where
  size : ∀ f, Leaves streams holds f (b.size f).2
  digests : ∀ f, Leaves streams holds f (b.digests f).2
  reports : ∀ f digests, Digests.ofArchive (holds f n k) = .ok digests →
    (b.digests f).1 = .ok digests
  fetch : ∀ f, Leaves streams holds f (b.fetch .unlimited f).2
  fetched : ∀ f, (b.fetch .unlimited f).1 = (streams f n k, .ok ())
  replaced : ∀ f bytes, (b.replace (.of bytes) f).1 = .ok ()
  replace : ∀ f bytes, holds (b.replace (.of bytes) f).2 = (holds f).put n k bytes

/-- The instance `n` holds the blobs `ids`, all of its own under its own identifier. It answers
    every question, it is capable of a backup and of a restore when it holds a blob, and it does
    not fail to act, except to clean up. -/
structure Instance.Faithful (n : Nat) (ids : List Identifier) (i : Instance F) : Prop where
  capable : ∀ phase f, Leaves streams holds f (i.capable phase f).2
  answers : ∀ phase f, ∃ able, (i.capable phase f).1 = .ok able
  movable : ids ≠ [] → ∀ f, (i.capable .backup f).1 = .ok true ∧ (i.capable .restore f).1 = .ok true
  act : ∀ phase f, Leaves streams holds f (i.act phase f).2
  acts : ∀ phase f, phase ≠ .cleanup → (i.act phase f).1 = .ok ()
  blobs : ∀ f, Leaves streams holds f (i.blobs f).2
  lists : ∀ f, ∃ bs, (i.blobs f).1 = .ok bs ∧ bs.map (·.id) = ids ∧
    ∀ k (b : Blob F), bs[k]? = some b → b.Faithful streams holds n k
  own : ∀ blob ∈ ids, blob.isNamed = false → blob = i.id

/-- All instances are faithful, and different blobs have files of different names. -/
structure Faithful (held : Nat → List Identifier) (is : List (Instance F)) : Prop where
  members : ∀ n (i : Instance F), is[n]? = some i → i.Faithful streams holds n (held n)
  within : ∀ n, held n ≠ [] → n < is.length
  names : ∀ (n k n' k' : Nat) (blob blob' : Identifier),
    (held n)[k]? = some blob → (held n')[k']? = some blob' →
    blob.fileName = blob'.fileName → blob = blob'

end

/-- What is observed of a faithful deployment are faithful members. -/
theorem Faithful.observed {streams holds : F → Contents} {held : Nat → List Identifier}
    {is : List (Instance F)} (hfaithful : Faithful streams holds held is)
    {i : Instance (World (F × History))} (hi : i ∈ observedFrom 0 (is.map Instance.inFleet)) :
    ∃ n, ∃ i' : Instance F, i'.Faithful streams holds n (held n) ∧ i = i'.inFleet.observed n := by
  obtain ⟨n, i', hi', rfl⟩ := mem_observedFrom hi
  rw [List.getElem?_map, Option.map_eq_some_iff] at hi'
  obtain ⟨i'', hi'', rfl⟩ := hi'
  rw [Nat.zero_add]
  exact ⟨n, i'', hfaithful.members n i'' hi'', rfl⟩

/-! ### Faithful fleets -/

/-- What the members of a fleet hold. -/
def heldOf (members : List (Identifier × List Identifier)) (n : Nat) : List Identifier :=
  (members[n]?.map (·.2)).getD []

theorem faithful_blob_kept (n k : Nat) (blob : Identifier) :
    (Blob.kept n k blob).Faithful id id n k where
  size := fun _ => ⟨rfl, rfl⟩
  digests := fun _ => ⟨rfl, rfl⟩
  reports := by
    intro c digests hdigests
    show (Digests.ofArchive (c n k)).mapError _ = _
    change Digests.ofArchive (c n k) = _ at hdigests
    rw [hdigests]
    rfl
  fetch := fun _ => ⟨rfl, rfl⟩
  fetched := fun _ => rfl
  replaced := fun _ _ => rfl
  replace := fun _ _ => rfl

section Kept

variable {members : List (Identifier × List Identifier)} {n k n' k' : Nat} {blob : Identifier}

/-- What is held at a place is held by the member that stands there. -/
theorem held_iff : (heldOf members n)[k]? = some blob ↔
    ∃ member, members[n]? = some member ∧ member.2[k]? = some blob := by
  unfold heldOf
  cases members[n]? with
  | none => simp
  | some member => simp

theorem mem_of_held (h : (heldOf members n)[k]? = some blob) :
    ∃ member ∈ members, blob ∈ member.2 := by
  obtain ⟨member, hmember, hblob⟩ := held_iff.mp h
  exact ⟨member, List.mem_of_getElem? hmember, List.mem_of_getElem? hblob⟩

/-- There is a faithful fleet for whatever may be held. -/
theorem faithful_kept
    (hown : ∀ member ∈ members, ∀ blob ∈ member.2, blob.isNamed = false → blob = member.1)
    (hnames : ∀ member ∈ members, ∀ blob ∈ member.2, ∀ member' ∈ members, ∀ blob' ∈ member'.2,
      blob.fileName = blob'.fileName → blob = blob') :
    Faithful id id (heldOf members)
      (members.mapIdx fun n member => Instance.kept n member.1 member.2) where
  members := by
    intro n i hi
    rw [List.getElem?_mapIdx, Option.map_eq_some_iff] at hi
    obtain ⟨⟨own, ids⟩, hmember, rfl⟩ := hi
    have hheld : heldOf members n = ids := by
      unfold heldOf
      rw [hmember]
      rfl
    rw [hheld]
    exact {
      capable := fun _ _ => ⟨rfl, rfl⟩
      answers := fun _ _ => ⟨true, rfl⟩
      movable := fun _ _ => ⟨rfl, rfl⟩
      act := fun _ _ => ⟨rfl, rfl⟩
      acts := fun _ _ _ => rfl
      blobs := fun _ => ⟨rfl, rfl⟩
      lists := by
        intro c
        refine ⟨_, rfl, ids_kept n ids, ?_⟩
        intro k b hb
        rw [List.getElem?_mapIdx, Option.map_eq_some_iff] at hb
        obtain ⟨blob, -, rfl⟩ := hb
        exact faithful_blob_kept n k blob
      own := hown _ (List.mem_of_getElem? hmember) }
  within := by
    intro n hn
    rw [List.length_mapIdx]
    -- Behind the last member nothing is held.
    refine Nat.lt_of_not_le fun hout => hn ?_
    rw [heldOf, List.getElem?_eq_none hout]
    rfl
  names := by
    intro n k n' k' blob blob' hblob hblob' hname
    obtain ⟨member, hmember, hmem⟩ := mem_of_held hblob
    obtain ⟨member', hmember', hmem'⟩ := mem_of_held hblob'
    exact hnames member hmember blob hmem member' hmember' blob' hmem' hname

/-- Members that can be told apart: they have different identifiers, none of them holds a blob
    twice, what one holds of its own has its identifier, and different blobs have files of different
    names. -/
structure Distinct (members : List (Identifier × List Identifier)) : Prop where
  ids : (members.map (·.1)).Nodup
  once : ∀ member ∈ members, member.2.Nodup
  own : ∀ member ∈ members, ∀ blob ∈ member.2, blob.isNamed = false → blob = member.1
  names : ∀ member ∈ members, ∀ blob ∈ member.2, ∀ member' ∈ members, ∀ blob' ∈ member'.2,
    blob.fileName = blob'.fileName → blob = blob'

theorem Distinct.faithful (h : Distinct members) :
    Faithful id id (heldOf members)
      (members.mapIdx fun n member => Instance.kept n member.1 member.2) :=
  faithful_kept h.own h.names

/-- There is one place at most for a blob that is not shared. -/
theorem Distinct.single (h : Distinct members) (hblob : (heldOf members n)[k]? = some blob)
    (hblob' : (heldOf members n')[k']? = some blob) (hnamed : blob.isNamed = false) :
    n = n' ∧ k = k' := by
  obtain ⟨member, hmember, hk⟩ := held_iff.mp hblob
  obtain ⟨member', hmember', hk'⟩ := held_iff.mp hblob'
  have hmem := List.mem_of_getElem? hmember
  -- Both members have the identifier of the blob, so they are the same one.
  have hid : blob = member.1 := h.own member hmem blob (List.mem_of_getElem? hk) hnamed
  have hid' : blob = member'.1 :=
    h.own member' (List.mem_of_getElem? hmember') blob (List.mem_of_getElem? hk') hnamed
  obtain rfl : n = n' := by
    have hlt := (List.getElem?_eq_some_iff.mp hmember).1
    refine (List.getElem?_inj (by rwa [List.length_map]) h.ids).mp ?_
    rw [List.getElem?_map, List.getElem?_map, hmember, hmember', Option.map_some, Option.map_some,
      ← hid, ← hid']
  obtain rfl : member = member' := Option.some.inj (hmember.symm.trans hmember')
  have hlt := (List.getElem?_eq_some_iff.mp hk).1
  exact ⟨rfl, (List.getElem?_inj hlt (h.once member hmem)).mp (hk.trans hk'.symm)⟩

end Kept

/-! ### What the answers say -/

/-- The answer is that of a faithful member. -/
def Truthful (held : Nat → List Identifier) (contents : Contents) (e : Event) : Prop :=
  match e.call with
  | .asked .backup answer => held e.member ≠ [] → answer = .ok true
  | .listed answer => answer = .ok (held e.member)
  | .fetched k bytes outcome => bytes = contents e.member k ∧ outcome = .ok ()
  | _ => True

/-- What the blobs stream has not changed, and all answers between the two worlds are truthful. -/
structure World.Truly (held : Nat → List Identifier) (streams : F → Contents)
    (w w' : World (F × History)) : Prop where
  same : streams w'.fleet.1 = streams w.fleet.1
  history : ∃ events, w'.history = w.history ++ events ∧
    ∀ e ∈ events, Truthful held (streams w.fleet.1) e

namespace World

variable {held : Nat → List Identifier} {streams holds : F → Contents}

theorem local_truly : Local (World.Truly held streams) where
  refl := fun w => ⟨rfl, [], (List.append_nil _).symm, by simp⟩
  trans := by
    rintro w w' w'' ⟨hsame, events, hhistory, htrue⟩ ⟨hsame', events', hhistory', htrue'⟩
    refine ⟨hsame'.trans hsame, events ++ events', ?_, ?_⟩
    · rw [hhistory', hhistory, List.append_assoc]
    · intro e he
      rw [hsame] at htrue'
      rcases List.mem_append.mp he with he | he
      · exact htrue e he
      · exact htrue' e he
  disk := fun w _ => ⟨rfl, [], (List.append_nil _).symm, by simp⟩
  claim := fun w _ => ⟨rfl, [], (List.append_nil _).symm, by simp⟩

/-- One call with a truthful answer. -/
theorem truly_call {w w' : World (F × History)} {f : F} {e : Event}
    (hleaves : Leaves streams holds w.fleet.1 f) (hfleet : w'.fleet = (f, w.history ++ [e]))
    (htrue : Truthful held (streams w.fleet.1) e) : Truly held streams w w' := by
  refine ⟨?_, [e], ?_, ?_⟩
  · rw [hfleet]
    exact hleaves.same_streams
  · show w'.fleet.2 = _
    rw [hfleet]
  · intro e' he'
    rw [List.mem_singleton.mp he']
    exact htrue

theorem reads_truly {n k : Nat} {b : Blob F} (hb : b.Faithful streams holds n k) :
    (b.inFleet.observed n k).Reads (World.Truly held streams) where
  size := fun w => truly_call (hb.size w.fleet.1) rfl trivial
  digests := fun w => truly_call (hb.digests w.fleet.1) rfl trivial
  fetch := by
    intro w
    refine truly_call (hb.fetch w.fleet.1) rfl ?_
    have hfetched := hb.fetched w.fleet.1
    exact ⟨congrArg Prod.fst hfetched, congrArg Prod.snd hfetched⟩

theorem steps_truly {n : Nat} {i : Instance F} (hi : i.Faithful streams holds n (held n)) :
    (i.inFleet.observed n).Steps (World.Truly held streams) where
  capable := by
    intro phase w
    refine truly_call (hi.capable phase w.fleet.1) rfl ?_
    cases phase with
    | backup => exact fun hheld => (hi.movable hheld w.fleet.1).1
    | preBackupLock | postBackupUnlock | preRestoreLock | restore | postRestoreUnlock | cleanup =>
      exact trivial
  act := fun phase w => truly_call (hi.act phase w.fleet.1) rfl trivial
  blobs := by
    intro w
    refine truly_call (hi.blobs w.fleet.1) rfl ?_
    obtain ⟨bs, hbs, hids, -⟩ := hi.lists w.fleet.1
    show (((i.blobs w.fleet.1).1.map (·.map Blob.inFleet)).map (·.map (·.id))) = .ok (held n)
    rw [hbs, ← hids]
    simp only [Except.map, List.map_map]
    rfl

/-- The blobs that a faithful instance lists are faithful. -/
theorem reads_listed {n : Nat} {i : Instance F} (hi : i.Faithful streams holds n (held n))
    {w : World (F × History)} {bs : List (Blob (World (F × History)))}
    (hlisted : ((i.inFleet.observed n).blobs w).1 = .ok bs) :
    ∀ b ∈ bs, b.Reads (World.Truly held streams) := by
  intro b hb
  obtain ⟨own, hown, -, hfaithful⟩ := hi.lists w.fleet.1
  change ((i.blobs w.fleet.1).1.map (·.map Blob.inFleet)).map (observedBlobs n 0) = _ at hlisted
  rw [hown] at hlisted
  cases hlisted
  obtain ⟨k, b', hb', rfl⟩ := mem_observedBlobs hb
  rw [List.getElem?_map, Option.map_eq_some_iff] at hb'
  obtain ⟨b'', hb'', rfl⟩ := hb'
  rw [Nat.zero_add]
  exact reads_truly (hfaithful k b'' hb'')

end World

namespace Workflow

open World

variable {held : Nat → List Identifier} {streams holds : F → Contents} {d : Deployment F ε}
  {policy : Policy} {path : String} {start finish : Instant} {w : World F} {is : List (Instance F)}
  {manifest : String} {a : Artifact} {disk : Disk}

variable (policy finish) in
/-- All answers in a backup of a faithful deployment are truthful. -/
theorem history_truthful (hfaithful : Faithful streams holds held is)
    (hinstances : d.instances w.fleet = .ok is)
    (hmanifest : d.manifest w.fleet = .ok manifest)
    (hprepare : prepare path manifest start w.disk = (.ok a, disk)) :
    ∀ e ∈ backupHistory d.inFleet policy path start finish w,
      Truthful held (streams w.fleet) e := by
  have hdriven := steps_drive local_truly.toKeeping policy backupPlan
    (by
      intro i hi
      obtain ⟨n, i', hi', rfl⟩ := hfaithful.observed hi
      exact steps_truly hi')
    (by
      intro i hi
      obtain ⟨n, i', hi', rfl⟩ := hfaithful.observed hi
      exact steps_backUp local_truly a (steps_truly hi')
        fun w bs hlisted => reads_listed hi' hlisted)
    (World.mk disk [] (w.fleet, []))
  -- The walk starts with no history, so that all of it was noted on the way.
  obtain ⟨-, events, hevents, htrue⟩ := hdriven
  unfold backupHistory
  rw [backup_eq (observed_instances_ok (inFleet_instances hinstances)) hmanifest hprepare,
    history_finished]
  intro e he
  change e ∈ (drive policy backupPlan (backUp a) (observedFrom 0 (is.map Instance.inFleet))
    (World.mk disk [] (w.fleet, []))).2.history at he
  rw [hevents] at he
  exact htrue e he

section

variable {contents : Contents} {h : History} (htrue : ∀ e ∈ h, Truthful held contents e)

include htrue

/-- What was listed is held. -/
theorem held_of_holds {n k : Nat} {blob : Identifier} (hholds : h.Holds n k blob) :
    (held n)[k]? = some blob := by
  obtain ⟨ids, hlisted, hid⟩ := hholds
  have hids : Except.ok ids = .ok (held n) := htrue _ hlisted
  rw [← Except.ok.inj hids]
  exact hid

theorem apart_of_truthful (hfaithful : Faithful streams holds held is) : h.Apart := by
  intro n k n' k' blob blob' hholds hholds' hname
  exact hfaithful.names n k n' k' blob blob' (held_of_holds htrue hholds)
    (held_of_holds htrue hholds') hname

end

end Workflow

end DeploymentBackup
