import DeploymentBackup.Proofs.Archive.RoundTrip
import DeploymentBackup.Proofs.Workflow.Faithful
import DeploymentBackup.Proofs.Workflow.Record

namespace DeploymentBackup

open Text

/-!
# Backups that are completed

Nothing fails in the backup of a faithful deployment, when its blobs hold the archives that they
stream, the artifact admits them, and no blob of an instance is held twice.

* `Instance.Sized`, `Storable` — what is asked of a deployment besides.
* `Still` — nothing has changed that a backup depends on.
* `Working` — an artifact that can be written to, and what it is written from.
* `transfer_succeeds`, `transferAll_succeeds`, `sweep_succeeds` — the data phase.
* `backup_completed` — the whole run.
* `backup_kept` — fleets that are backed up, among them `sharers`.
-/

/-- To ask a blob for its size does not panic. -/
def Blob.Sized {W : Type} (b : Blob W) : Prop :=
  ∀ w payload, (b.size w).1 ≠ .error (.panic payload)

/-- To ask its blobs for their sizes does not panic. -/
def Instance.Sized {W : Type} (i : Instance W) : Prop :=
  ∀ w bs, (i.blobs w).1 = .ok bs → ∀ b ∈ bs, b.Sized

theorem sized_kept (n : Nat) (own : Identifier) (ids : List Identifier) :
    (Instance.kept n own ids).Sized := by
  intro c bs hbs b hb c' payload
  cases hbs
  obtain ⟨k, hk, rfl⟩ := List.mem_mapIdx.mp hb
  exact fun hc => by cases hc

namespace Workflow

open Artifact

variable {F ε : Type} {streams holds : F → Contents} {held : Nat → List Identifier}
  {c : Contents} {a : Artifact} {m : Metadata}

/-- The disk and the claims are as they were, and so is what the blobs stream and hold. -/
structure Still (streams holds : F → Contents) (w w' : World F) : Prop where
  disk : w'.disk = w.disk
  claimed : w'.claimed = w.claimed
  leaves : Leaves streams holds w.fleet w'.fleet

theorem keeping_still : Keeping (Still streams holds) where
  refl := fun _ => ⟨rfl, rfl, rfl, rfl⟩
  trans := by
    rintro w w' w'' ⟨hdisk, hclaimed, hleaves⟩ ⟨hdisk', hclaimed', hleaves'⟩
    exact ⟨hdisk'.trans hdisk, hclaimed'.trans hclaimed,
      hleaves'.same_streams.trans hleaves.same_streams,
      hleaves'.same_holds.trans hleaves.same_holds⟩

/-- The artifact keeps a record, nothing but files stands where its archives go, and the blobs
    hold what they stream. -/
structure Working (streams holds : F → Contents) (c : Contents) (a : Artifact) (m : Metadata)
    (w : World F) : Prop where
  sound : a.Sound w.disk
  files : ∀ blob entry, w.disk.get? (a.blobPath blob) = some entry →
    ∃ old executable, entry = .file old executable
  record : a.HasRecord m w.disk
  proper : m.Proper
  same_streams : streams w.fleet = c
  same_holds : holds w.fleet = c

variable {w w' : World F}

theorem Working.leaves (h : Working streams holds c a m w) (hdisk : w'.disk = w.disk)
    (hleaves : Leaves streams holds w.fleet w'.fleet) : Working streams holds c a m w' where
  sound := by
    rw [hdisk]
    exact h.sound
  files := by
    rw [hdisk]
    exact h.files
  record := by
    rw [hdisk]
    exact h.record
  proper := h.proper
  same_streams := hleaves.same_streams.trans h.same_streams
  same_holds := hleaves.same_holds.trans h.same_holds

theorem Working.still (h : Working streams holds c a m w) (hstill : Still streams holds w w') :
    Working streams holds c a m w' :=
  h.leaves hstill.disk hstill.leaves

theorem files_of_stores {d d' : Disk} {path : Path} {bytes : Bytes}
    (hfiles : ∀ blob entry, d.get? (a.blobPath blob) = some entry →
      ∃ old executable, entry = .file old executable) (hstores : Disk.Stores d d' path bytes) :
    ∀ blob entry, d'.get? (a.blobPath blob) = some entry →
      ∃ old executable, entry = .file old executable := by
  intro blob entry hentry
  by_cases hpath : a.blobPath blob = path
  · obtain ⟨executable, hhere⟩ := hstores.here
    rw [hpath] at hentry
    exact Disk.overwritable_of_file hhere entry hentry
  · rw [hstores.elsewhere _ hpath] at hentry
    exact hfiles blob entry hentry

/-- A file was written into the artifact, which keeps a record besides. -/
theorem Working.written (h : Working streams holds c a m w) {m' : Metadata} {name : String}
    {bytes : Bytes} (hstores : Disk.Stores w.disk w'.disk (a.directory.entry name) bytes)
    (hrecord : a.HasRecord m' w'.disk) (hproper : m'.Proper)
    (hleaves : Leaves streams holds w.fleet w'.fleet) : Working streams holds c a m' w' where
  sound := hstores.clean h.sound
  files := files_of_stores h.files hstores
  record := hrecord
  proper := hproper
  same_streams := hleaves.same_streams.trans h.same_streams
  same_holds := hleaves.same_holds.trans h.same_holds

/-! ### One blob -/

section Blob

variable {b : Blob F} {n k : Nat}

theorem size_still (hb : b.Faithful streams holds n k)
    (hsized : b.Sized) (w : World F) :
    ∃ answer w', b.inFleet.size.attempt w = (.ok answer, w') ∧ Still streams holds w w' := by
  have hstill : Still streams holds w (b.inFleet.size w).2 := ⟨rfl, rfl, hb.size w.fleet⟩
  have hvalue : (b.inFleet.size w).1 = (b.size w.fleet).1 := rfl
  unfold Act.attempt
  rcases hrun : b.inFleet.size w with ⟨(cause | payload) | size, w'⟩
  · rw [hrun] at hstill
    exact ⟨_, _, rfl, hstill⟩
  · rw [hrun] at hvalue
    exact absurd hvalue.symm (hsized _ _)
  · rw [hrun] at hstill
    exact ⟨_, _, rfl, hstill⟩

/-- What was stored is confirmed when it is what the blob holds, and recorded when the blob is
    not recorded yet. -/
theorem confirm_succeeds (hworking : Working streams holds c a m w)
    (hb : b.Faithful streams holds n k) (hadmits : Admits b.id)
    (hkeeps : a.Keeps b.id (c n k) w.disk) {digests : Digests}
    (harchive : Digests.ofArchive (c n k) = .ok digests) (hnew : b.id ∉ m.ids) :
    ∃ w' m', confirm a b.inFleet w = (.ok (), w') ∧ Working streams holds c a m' w' ∧
      w'.claimed = w.claimed ∧ ∀ other, other ∈ m'.ids ↔ other = b.id ∨ other ∈ m.ids := by
  have hlocal := calculateDigests_of_keeps hworking.sound hadmits hkeeps
  rw [harchive] at hlocal
  -- What the blob holds is what it streamed, so it reports the digests of what was stored.
  let w₁ : World F := { w with fleet := (b.digests w.fleet).2 }
  have hremote : b.inFleet.digests w = (.ok digests, w₁) := by
    refine Prod.ext (hb.reports w.fleet digests ?_) rfl
    rw [hworking.same_holds]
    exact harchive
  have hworking₁ : Working streams holds c a m w₁ := hworking.leaves rfl (hb.digests w.fleet)
  rcases record_run (F := F) hworking₁.sound hworking₁.record digests with
    ⟨m', disk, hrun, hinsert, hwrites⟩ | ⟨hnone, -⟩
  · have hinserted := Metadata.insert?_spec hworking.proper hinsert
    refine ⟨{ w₁ with disk := disk }, m', ?_, ?_, rfl, ?_⟩
    · have hid : b.inFleet.id = b.id := rfl
      unfold confirm
      rw [hid, bind_of_ok (inspectDisk_ok hlocal), bind_of_ok hremote,
        if_pos (by simp [Digests.agrees])]
      exact hrun
    · exact hworking₁.written hwrites (hasRecord_of_stores hwrites) hinserted.proper ⟨rfl, rfl⟩
    · intro other
      exact hinserted.mem_ids
  · -- The record refuses no blob that is new to it.
    obtain ⟨m', hsome⟩ := Metadata.insert?_isSome hworking.proper hnew digests
    rw [hnone] at hsome
    cases hsome

/-- A blob that is not recorded yet is stored and recorded. -/
theorem transfer_succeeds (hworking : Working streams holds c a m w)
    (hb : b.Faithful streams holds n k)
    (hsized : b.Sized) (hadmits : Admits b.id)
    {digests : Digests} (harchive : Digests.ofArchive (c n k) = .ok digests)
    (hnew : b.id ∉ m.ids) :
    ∃ w' m', transfer a b.inFleet w = (.ok (), w') ∧ Working streams holds c a m' w' ∧
      w'.claimed = w.claimed ∧ ∀ other, other ∈ m'.ids ↔ other = b.id ∨ other ∈ m.ids := by
  -- The answer about the size is shown only, whatever it is.
  obtain ⟨answer, w₁, hsize, hstill₁⟩ := size_still hb hsized w
  have hworking₁ := hworking.still hstill₁
  obtain ⟨file, disk₂, hcreate⟩ := createFile_ok hworking₁.sound hadmits (hworking₁.files b.id)
  obtain ⟨-, hstores⟩ := createFile_stores hworking₁.sound hcreate
  have hwritten := hstores (c n k)
  let w₂ : World F := ⟨disk₂.write file (c n k), w₁.claimed, (b.fetch .unlimited w₁.fleet).2⟩
  have hstore : store b.inFleet file { w₁ with disk := disk₂ } = (.ok (), w₂) := by
    have hfetched := hb.fetched w₁.fleet
    rw [hworking₁.same_streams] at hfetched
    show ((b.fetch .unlimited w₁.fleet).1.2, World.mk
      (disk₂.write file (b.fetch .unlimited w₁.fleet).1.1) w₁.claimed
      (b.fetch .unlimited w₁.fleet).2) = _
    rw [hfetched]
  have hworking₂ : Working streams holds c a m w₂ :=
    hworking₁.written hwritten (hworking₁.record.of_stores hwritten) hworking.proper
      (hb.fetch w₁.fleet)
  obtain ⟨w₃, m', hconfirm, hworking₃, hclaimed, hids⟩ :=
    confirm_succeeds hworking₂ hb hadmits (keeps_of_stores hwritten) harchive hnew
  refine ⟨w₃, m', ?_, hworking₃, hclaimed.trans hstill₁.claimed, hids⟩
  have hid : b.inFleet.id = b.id := rfl
  rw [transfer_eq, hid, bind_of_ok hsize, bind_of_ok (changeDisk_ok hcreate), bind_of_ok hstore]
  exact hconfirm

end Blob

/-! ### All blobs -/

/-- What is held can be stored: the artifact admits it, it is an archive, and no blob of an
    instance is held twice. -/
structure Storable (held : Nat → List Identifier) (c : Contents) : Prop where
  admits : ∀ (n k : Nat) (blob : Identifier), (held n)[k]? = some blob → Admits blob
  archive : ∀ (n k : Nat) (blob : Identifier), (held n)[k]? = some blob →
    ∃ digests, Digests.ofArchive (c n k) = .ok digests
  once : ∀ (n k n' k' : Nat) (blob : Identifier), (held n)[k]? = some blob →
    (held n')[k']? = some blob → blob.isNamed = false → n = n' ∧ k = k'

/-- What is recorded was claimed when it is shared, and it was held before the blob `k` of the
    instance `n` when it is not. -/
def Past (held : Nat → List Identifier) (n k : Nat) (m : Metadata) (claimed : List Identifier) :
    Prop :=
  ∀ blob ∈ m.ids, (blob.isNamed = true → blob ∈ claimed) ∧
    (blob.isNamed = false → ∃ n' k', Earlier n' k' n k ∧ (held n')[k']? = some blob)

theorem Past.next {n k n' k' : Nat} {claimed claimed' : List Identifier}
    (h : Past held n k m claimed)
    (hlater : ∀ n₀ k₀, Earlier n₀ k₀ n k → Earlier n₀ k₀ n' k') (hclaimed : claimed ⊆ claimed') :
    Past held n' k' m claimed' := by
  intro blob hblob
  obtain ⟨hshared, hown⟩ := h blob hblob
  refine ⟨fun hnamed => hclaimed (hshared hnamed), fun hnamed => ?_⟩
  obtain ⟨n₀, k₀, hearlier, hheld⟩ := hown hnamed
  exact ⟨n₀, k₀, hlater n₀ k₀ hearlier, hheld⟩

/-- The blobs of an instance from the place `k` on are stored, by induction on them. -/
theorem transferAll_succeeds (hstorable : Storable held c) {n : Nat} (bs : List (Blob F)) (k : Nat)
    (hids : (held n).drop k = bs.map (·.id))
    (hbs : ∀ (j : Nat) (b : Blob F), bs[j]? = some b → b.Faithful streams holds n (k + j))
    (hsized : ∀ b ∈ bs, b.Sized)
    (hworking : Working streams holds c a m w) (hpast : Past held n k m w.claimed) :
    ∃ w' m', transferAll a (bs.map Blob.inFleet) w = (.ok (), w') ∧
      Working streams holds c a m' w' ∧ Past held n (k + bs.length) m' w'.claimed := by
  induction bs generalizing k m w with
  | nil => exact ⟨w, m, rfl, hworking, hpast⟩
  | cons b rest ih =>
    obtain ⟨hhere, hrest⟩ := of_drop_eq_cons hids
    have hlater : ∀ n₀ k₀, Earlier n₀ k₀ n k → Earlier n₀ k₀ n (k + 1) := by
      intro n₀ k₀ h
      unfold Earlier at *
      omega
    have hothers := tail_places (P := fun k (b : Blob F) => b.Faithful streams holds n k) hbs
    have hsizedRest : ∀ b' ∈ rest, b'.Sized :=
      fun b' hb' => hsized b' (List.mem_cons_of_mem _ hb')
    have hid : b.inFleet.id = b.id := rfl
    rw [List.map_cons, transferAll_cons, hid, List.length_cons, Nat.add_comm rest.length,
      ← Nat.add_assoc]
    rcases taking_run b.id w with ⟨-, -, htaking⟩ | ⟨w₁, htaking, hfree, hdisk, hfleet, hclaimed⟩
    · rw [bind_of_ok htaking, if_neg Bool.false_ne_true, bind_of_ok (Act.pure_apply () w)]
      exact ih (k + 1) hrest hothers hsizedRest hworking
        (hpast.next hlater (List.Subset.refl _))
    · -- What is recorded is not this blob: a shared one is claimed, and any other one is held at a
      -- place in front of this one.
      have hnew : b.id ∉ m.ids := by
        intro hc
        obtain ⟨hshared, hown⟩ := hpast b.id hc
        cases hnamed : b.id.isNamed with
        | true => exact hfree hnamed (hshared hnamed)
        | false =>
          obtain ⟨n₀, k₀, hearlier, hheld⟩ := hown hnamed
          obtain ⟨rfl, rfl⟩ := hstorable.once _ _ _ _ _ hheld hhere hnamed
          unfold Earlier at hearlier
          omega
      have hworking₁ : Working streams holds c a m w₁ :=
        hworking.leaves hdisk (by rw [hfleet]; exact ⟨rfl, rfl⟩)
      obtain ⟨digests, harchive⟩ := hstorable.archive n k b.id hhere
      obtain ⟨w₂, m', htransfer, hworking₂, hkept, hids'⟩ := transfer_succeeds hworking₁
        (hbs 0 b rfl) (hsized b List.mem_cons_self) (hstorable.admits n k b.id hhere) harchive hnew
      rw [bind_of_ok htaking, if_pos rfl, bind_of_ok htransfer]
      refine ih (k + 1) hrest hothers hsizedRest hworking₂ ?_
      intro other hother
      rw [hkept]
      rcases (hids' other).mp hother with rfl | hold
      · refine ⟨fun hnamed => (hclaimed _).mpr (.inr ⟨hnamed, rfl⟩), fun _ => ⟨n, k, ?_, hhere⟩⟩
        unfold Earlier
        omega
      · exact hpast.next hlater (fun x hx => (hclaimed x).mpr (.inl hx)) other hold

/-! ### All instances -/

/-- In its turn, an instance stores all its blobs. Without blobs it may not be capable of it. -/
theorem visit_succeeds (hstorable : Storable held c) {i : Instance F} {n : Nat}
    (hi : i.Faithful streams holds n (held n)) (hsized : i.Sized)
    (hworking : Working streams holds c a m w) (hpast : Past held n 0 m w.claimed) :
    ∃ w' m', Phase.backup.visit (backUp a) i.inFleet w = ([], w') ∧
      Working streams holds c a m' w' ∧ Past held (n + 1) 0 m' w'.claimed := by
  have hlater : ∀ k n₀ k₀, Earlier n₀ k₀ n k → Earlier n₀ k₀ (n + 1) 0 := by
    intro k n₀ k₀ h
    unfold Earlier at *
    omega
  -- Every call leaves what is streamed and what is held as it was, so `Working` goes from one to
  -- the next.
  obtain ⟨able, hanswer⟩ := hi.answers .backup w.fleet
  let w₁ : World F := { w with fleet := (i.capable .backup w.fleet).2 }
  have hcapable : i.inFleet.capable .backup w = (.ok able, w₁) := Prod.ext hanswer rfl
  have hworking₁ : Working streams holds c a m w₁ :=
    hworking.leaves rfl (hi.capable .backup w.fleet)
  unfold Phase.visit Phase.turn
  rw [bind_of_ok hcapable]
  cases able with
  | false => exact ⟨w₁, m, rfl, hworking₁, hpast.next (hlater 0) (List.Subset.refl _)⟩
  | true =>
    let w₂ : World F := { w₁ with fleet := (i.act .backup w₁.fleet).2 }
    have hact : i.inFleet.act .backup w₁ = (.ok (), w₂) :=
      Prod.ext (hi.acts .backup w₁.fleet (by decide)) rfl
    obtain ⟨bs, hbs, hids, hfaithful⟩ := hi.lists w₂.fleet
    let w₃ : World F := { w₂ with fleet := (i.blobs w₂.fleet).2 }
    have hlisted : i.inFleet.blobs w₂ = (.ok (bs.map Blob.inFleet), w₃) := by
      refine Prod.ext ?_ rfl
      show (i.blobs w₂.fleet).1.map _ = _
      rw [hbs]
      rfl
    have hworking₂ : Working streams holds c a m w₂ :=
      hworking₁.leaves rfl (hi.act .backup w₁.fleet)
    have hworking₃ : Working streams holds c a m w₃ :=
      hworking₂.leaves rfl (hi.blobs w₂.fleet)
    obtain ⟨w₄, m', htransferred, hworking₄, hpast₄⟩ := transferAll_succeeds hstorable bs 0
      (by rw [List.drop_zero, hids]) (fun j b hb => by rw [Nat.zero_add]; exact hfaithful j b hb)
      (hsized w₂.fleet bs hbs) hworking₃ hpast
    refine ⟨w₄, m', ?_, hworking₄, hpast₄.next (hlater _) (List.Subset.refl _)⟩
    rw [if_pos rfl]
    unfold backUp
    rw [bind_of_ok hact, bind_of_ok hlisted, htransferred]

theorem sweep_succeeds (hstorable : Storable held c) (is : List (Instance F)) (n : Nat)
    (hi : ∀ (j : Nat) (i : Instance F), is[j]? = some i →
      i.Faithful streams holds (n + j) (held (n + j)))
    (hsized : ∀ i ∈ is, i.Sized) (hworking : Working streams holds c a m w)
    (hpast : Past held n 0 m w.claimed) :
    ∃ w' m', Phase.backup.sweep (backUp a) (is.map Instance.inFleet) w = ([], w') ∧
      Working streams holds c a m' w' := by
  induction is generalizing n m w with
  | nil => exact ⟨w, m, rfl, hworking⟩
  | cons i rest ih =>
    obtain ⟨w₁, m₁, hvisit, hworking₁, hpast₁⟩ := visit_succeeds hstorable (hi 0 i rfl)
      (hsized i List.mem_cons_self) hworking hpast
    have hrest :=
      tail_places (P := fun n (i : Instance F) => i.Faithful streams holds n (held n)) hi
    obtain ⟨w₂, m₂, hsweep, hworking₂⟩ := ih (n + 1) hrest
      (fun i' hi' => hsized i' (List.mem_cons_of_mem _ hi')) hworking₁ hpast₁
    refine ⟨w₂, m₂, ?_, hworking₂⟩
    rw [List.map_cons, Phase.sweep_cons, hvisit, hsweep]
    rfl

theorem own_still (phase : Phase) {is : List (Instance F)}
    (hfaithful : Faithful streams holds held is) (w : World F) :
    ∃ errors w', phase.sweep phase.own (is.map Instance.inFleet) w = (errors, w') ∧
      (phase ≠ .cleanup → errors = []) ∧ Still streams holds w w' := by
  have hmember {i : Instance (World F)} (hi : i ∈ is.map Instance.inFleet) :
      ∃ n, ∃ i' : Instance F, i'.Faithful streams holds n (held n) ∧ i'.inFleet = i := by
    obtain ⟨i', hi', rfl⟩ := List.mem_map.mp hi
    obtain ⟨n, hn⟩ := List.mem_iff_getElem?.mp hi'
    exact ⟨n, i', hfaithful.members n i' hn, rfl⟩
  refine sweep_own_of keeping_still ?_ ?_ w
  · intro i hi w
    obtain ⟨n, i', hi', rfl⟩ := hmember hi
    obtain ⟨able, hanswer⟩ := hi'.answers phase w.fleet
    exact ⟨able, _, Prod.ext hanswer rfl, rfl, rfl, hi'.capable phase w.fleet⟩
  · intro i hi w
    obtain ⟨n, i', hi', rfl⟩ := hmember hi
    exact ⟨_, _, rfl, hi'.acts phase w.fleet, rfl, rfl, hi'.act phase w.fleet⟩

/-! ### The whole run -/

/-- Into a directory without links, in which nothing stands in the way of an archive, a faithful
    deployment is backed up without a failure when all that it holds can be stored and its blobs
    hold what they stream. -/
theorem backup_completed {d : Deployment F ε} {is : List (Instance F)} {manifest path : String}
    {start : Instant} {disk : Disk} (policy : Policy) (finish : Instant)
    (hfaithful : Faithful streams holds held is) (hsized : ∀ i ∈ is, i.Sized)
    (hstorable : Storable held (streams w.fleet)) (hholds : holds w.fleet = streams w.fleet)
    (hinstances : d.instances w.fleet = .ok is) (hmanifest : d.manifest w.fleet = .ok manifest)
    (hprepare : prepare path manifest start w.disk = (.ok a, disk)) (hlinks : a.HoldsNoLink disk)
    (hfiles : ∀ blob entry, disk.get? (a.blobPath blob) = some entry →
      ∃ old executable, entry = .file old executable) :
    ∃ report, (backup d.inFleet policy path start finish w).1 = .ok report := by
  obtain ⟨hsound, hrecord, -⟩ := prepare_spec hprepare hlinks
  let w₀ : World F := { w with disk := disk, claimed := [] }
  have hworking₀ : Working streams holds (streams w.fleet) a (firstRecord start) w₀ :=
    ⟨hsound, hfiles, hrecord, fun r hr => absurd hr List.not_mem_nil, rfl, hholds⟩
  obtain ⟨lockErrors, w₁, hlock, hlocked, hstill₁⟩ := own_still backupPlan.lock hfaithful w₀
  obtain rfl := hlocked (by decide)
  -- Nothing was taken before the first instance.
  have hpast : Past held 0 0 (firstRecord start) w₁.claimed :=
    fun blob hblob => absurd hblob List.not_mem_nil
  obtain ⟨w₂, m, hdata, hworking₂⟩ := sweep_succeeds hstorable is 0
    (fun j i hi => by rw [Nat.zero_add]; exact hfaithful.members j i hi) hsized
    (hworking₀.still hstill₁) hpast
  obtain ⟨unlockErrors, w₃, hunlock, hunlocked, hstill₃⟩ := own_still backupPlan.unlock hfaithful w₂
  obtain rfl := hunlocked (by decide)
  obtain ⟨p, hdrive, hfree⟩ := drive_free policy backupPlan hlock hdata hunlock
  -- Cleaning up may fail, but it does not keep a backup from being completed.
  obtain ⟨cleanupErrors, w₄, hcleanup, -, hstill₄⟩ := own_still .cleanup hfaithful w₃
  rw [hcleanup] at hdrive
  have hworking₄ := (hworking₂.still hstill₃).still hstill₄
  obtain ⟨disk', hfinish, -⟩ := addFinishTime_stores hworking₄.sound hworking₄.record finish
  rw [backup_eq (inFleet_instances hinstances) hmanifest hprepare, hdrive]
  unfold finished Progress.finish
  simp only [hfinish, hfree]
  exact ⟨_, rfl⟩

/-! ### Fleets that are backed up -/

theorem storable_of_distinct {members : List (Identifier × List Identifier)} (h : Distinct members)
    (hadmits : ∀ member ∈ members, ∀ blob ∈ member.2, Admits blob) {c : Contents}
    (harchive : ∀ n k, ∃ digests, Digests.ofArchive (c n k) = .ok digests) :
    Storable (heldOf members) c where
  admits := by
    intro n k blob hblob
    obtain ⟨member, hmember, hmem⟩ := mem_of_held hblob
    exact hadmits member hmember blob hmem
  archive := fun n k _ _ => harchive n k
  once := fun _ _ _ _ _ hblob hblob' hnamed => h.single hblob hblob' hnamed

/-- Members that can be told apart are backed up without a failure, where there is nothing else on
    the disk. -/
theorem backup_kept {members : List (Identifier × List Identifier)} (h : Distinct members)
    {c : Contents} (hstorable : Storable (heldOf members) c) (policy : Policy)
    (start finish : Instant) :
    ∃ (a : Artifact) (disk : Disk) (report : Report),
      prepare "x" "" start Disk.fresh = (.ok a, disk) ∧ a.HoldsNoLink disk ∧
      (backup (Deployment.kept members).inFleet policy "x" start finish ⟨Disk.fresh, [], c⟩).1 =
        .ok report := by
  obtain ⟨a, disk, hprepare, hnew, hfree⟩ := prepare_fresh "" start
  have hlinks := holdsNoLink_of_vacant hprepare hnew
  have hsized : ∀ i ∈ members.mapIdx fun n member => Instance.kept n member.1 member.2,
      i.Sized := by
    intro i hi
    obtain ⟨n, hn, rfl⟩ := List.mem_mapIdx.mp hi
    exact sized_kept n _ _
  obtain ⟨report, hcompleted⟩ := backup_completed (d := Deployment.kept members)
    (w := ⟨Disk.fresh, [], c⟩) policy finish h.faithful hsized hstorable rfl rfl rfl hprepare
    hlinks (by simp [hfree])
  exact ⟨a, disk, report, hprepare, hlinks, hcompleted⟩

/-- Two instances that share a blob, each with a blob of its own besides. -/
def sharers : List (Identifier × List Identifier) :=
  [(.indexed "a" "0", [.indexed "a" "0", .named "s"]),
    (.indexed "a" "1", [.named "s", .indexed "a" "1"])]

/-- For every blob an archive of one file, which tells the place of the blob. -/
def archivedPlaces : Contents :=
  fun n k => Archive.write [("place", [UInt8.ofNat n, UInt8.ofNat k])]

theorem distinct_sharers : Distinct sharers :=
  ⟨by decide, by decide, by decide, by decide⟩

/-- The second blob of the first instance is the first holder of what the two of them share. -/
theorem first_of_sharers {n k : Nat} (hheld : (heldOf sharers n)[k]? = some (.named "s"))
    (hfirst : ∀ n' k', (heldOf sharers n')[k']? = some (.named "s") → ¬ Earlier n' k' n k) :
    n = 0 ∧ k = 1 := by
  obtain ⟨member, hmember, hk⟩ := held_iff.mp hheld
  have hlater : ¬ (0 < n ∨ 0 = n ∧ 1 < k) := hfirst 0 1 rfl
  obtain rfl : n = 0 := by omega
  cases hmember
  rcases k with _ | _ | k
  · exact absurd hk (by decide)
  · exact ⟨rfl, rfl⟩
  · omega

theorem storable_sharers : Storable (heldOf sharers) archivedPlaces := by
  refine storable_of_distinct distinct_sharers ?_ fun n k => ?_
  · have hadmits : ∀ member ∈ sharers, ∀ blob ∈ member.2,
        fileName blob = .ok blob.fileName ∧ Disk.nameFault? blob.fileName = none := by
      decide
    exact fun member hmember blob hblob =>
      ⟨(hadmits member hmember blob hblob).1, (hadmits member hmember blob hblob).2⟩
  · let e : Archive.Entry := ⟨[], "place", [UInt8.ofNat n, UInt8.ofNat k]⟩
    have hpath : (encode "place").length + 1 < UInt64.size := by decide
    have hcontents : 2 < UInt64.size := by decide
    have haccepted : ¬ Archive.Refused "place".toList := by decide
    have hfile : ∀ e' ∈ [e], e'.Fits ∧ ¬ Archive.Refused e'.path.toList := by
      intro e' he'
      rw [List.mem_singleton.mp he']
      exact ⟨⟨hpath, hcontents, fun header hheader => by cases hheader⟩, haccepted⟩
    exact ⟨_, Archive.ofArchive_files hfile⟩

end Workflow

end DeploymentBackup
