import DeploymentBackup.Proofs.Workflow.Stock

namespace DeploymentBackup.Workflow

open Text Artifact

/-!
# Deliveries

When an artifact has what a faithful deployment holds, a restore delivers it: blob by blob,
instance by instance, each place is given the bytes that are meant for it, and no other place is
changed.

* `Delivers` — what was delivered between two worlds.
* `Supply` — the artifact has the bytes that are meant for a blob.
* `upload_delivers`, `putBack_delivers`, `sweep_delivers`, `drive_delivers` — from one blob to
  the whole walk.
-/

variable {F ε : Type}

/-- The places were given the bytes that are meant for them, and nothing else has changed. -/
structure Delivers (streams holds : F → Contents) (target : Contents) (places : Nat → Nat → Prop)
    (w w' : World (F × History)) : Prop where
  disk : w'.disk = w.disk
  history : w.history ⊆ w'.history
  given : ∀ n k, places n k → holds w'.fleet.1 n k = target n k ∧
    ⟨n, .replaced k (.of (target n k)) (.ok ())⟩ ∈ w'.history
  kept : ∀ n k, ¬ places n k → holds w'.fleet.1 n k = holds w.fleet.1 n k

/-- The artifact has the bytes that are meant for a blob. -/
structure Supply (a : Artifact) (m : Metadata) (disk : Disk) (blob : Identifier) (bytes : Bytes) :
    Prop where
  admits : Admits blob
  keeps : a.Keeps blob bytes disk
  recorded : ∃ digests, (blob, digests) ∈ m.recorded ∧ Digests.ofArchive bytes = .ok digests

section

variable {streams holds : F → Contents} {target : Contents} {w w' w'' : World (F × History)}

theorem Delivers.mono {P Q : Nat → Nat → Prop} (h : Delivers streams holds target P w w')
    (hiff : ∀ n k, P n k ↔ Q n k) : Delivers streams holds target Q w w' where
  disk := h.disk
  history := h.history
  given := fun n k hQ => h.given n k ((hiff n k).mpr hQ)
  kept := fun n k hQ => h.kept n k fun hP => hQ ((hiff n k).mp hP)

/-- Two deliveries, one behind the other. -/
theorem Delivers.trans {P Q : Nat → Nat → Prop} (h : Delivers streams holds target P w w')
    (h' : Delivers streams holds target Q w' w'') :
    Delivers streams holds target (fun n k => P n k ∨ Q n k) w w'' where
  disk := h'.disk.trans h.disk
  history := List.Subset.trans h.history h'.history
  given := by
    intro n k hplace
    by_cases hQ : Q n k
    · exact h'.given n k hQ
    · obtain ⟨hbytes, hevent⟩ := h.given n k (hplace.resolve_right hQ)
      exact ⟨(h'.kept n k hQ).trans hbytes, h'.history hevent⟩
  kept := by
    intro n k hplace
    rw [not_or] at hplace
    exact (h'.kept n k hplace.2).trans (h.kept n k hplace.1)

/-- Nothing was delivered. -/
abbrev Idle (streams holds : F → Contents) (target : Contents) (w w' : World (F × History)) :
    Prop :=
  Delivers streams holds target (fun _ _ => False) w w'

theorem keeping_idle : Keeping (Idle streams holds target) where
  refl := fun w => ⟨rfl, List.Subset.refl _, fun _ _ h => absurd h id, fun _ _ _ => rfl⟩
  trans := by
    intro w w' w'' h h'
    exact (h.trans h').mono fun n k => by simp

theorem Delivers.idle {P : Nat → Nat → Prop} (h : Delivers streams holds target P w w')
    (h' : Idle streams holds target w' w'') : Delivers streams holds target P w w'' :=
  (h.trans h').mono fun n k => by simp

theorem Delivers.of_idle {P : Nat → Nat → Prop} (h' : Delivers streams holds target P w' w'')
    (h : Idle streams holds target w w') : Delivers streams holds target P w w'' :=
  (h.trans h').mono fun n k => by simp

/-- One call that leaves the blobs as they are. -/
theorem idle_call {f : F} {e : Event} (hdisk : w'.disk = w.disk)
    (hleaves : Leaves streams holds w.fleet.1 f) (hfleet : w'.fleet = (f, w.history ++ [e])) :
    Idle streams holds target w w' where
  disk := hdisk
  history := by
    show w.history ⊆ w'.fleet.2
    rw [hfleet]
    exact List.subset_append_left _ _
  given := fun _ _ h => absurd h id
  kept := by
    intro n k _
    rw [hfleet]
    exact congrFun (congrFun hleaves.same_holds n) k

/-! ### One instance -/

section Instance

variable {a : Artifact} {m : Metadata} {n k : Nat}

/-- To upload a blob delivers it. -/
theorem upload_delivers (hbacked : Backed a m w.disk) {b : Blob F}
    (hsupply : Supply a m w.disk b.id (target n k)) (hb : b.Faithful streams holds n k) :
    ∃ w', upload a (b.inFleet.observed n k) w = (.ok (), w') ∧
      Delivers streams holds target (fun n' k' => n' = n ∧ k' = k) w w' := by
  obtain ⟨digests, hrecorded, hlocal⟩ := hsupply.recorded
  have hfetch : a.fetchDigests b.id w.disk = .ok (some digests) := by
    unfold fetchDigests
    rw [metadata_of_hasRecord hbacked.sound hbacked.record]
    exact congrArg Except.ok (Metadata.digestsFor?_of_mem hbacked.proper hbacked.once hrecorded)
  have hopen := openFile_of_keeps hbacked.sound hsupply.admits hsupply.keeps
  -- The blob takes what the archive holds, and then reports the digests of it.
  obtain ⟨w₁, hreplace, hdelivers⟩ : ∃ w₁,
      (b.inFleet.observed n k).replace (.of (target n k)) w = (.ok (), w₁) ∧
      Delivers streams holds target (fun n' k' => n' = n ∧ k' = k) w w₁ := by
    have hreplaced := hb.replaced w.fleet.1 (target n k)
    have hholds := hb.replace w.fleet.1 (target n k)
    have hnoted : ((b.inFleet.observed n k).replace (.of (target n k)) w).2.history =
        w.history ++
          [⟨n, .replaced k (.of (target n k)) (b.replace (.of (target n k)) w.fleet.1).1⟩] :=
      rfl
    rw [hreplaced] at hnoted
    refine ⟨_, Prod.ext hreplaced rfl, ⟨rfl, ?_, ?_, ?_⟩⟩
    · rw [hnoted]
      exact List.subset_append_left _ _
    · rintro n' k' ⟨rfl, rfl⟩
      refine ⟨?_, ?_⟩
      · show holds (b.replace (.of (target n' k')) w.fleet.1).2 n' k' = _
        rw [hholds]
        simp [Contents.put]
      · rw [hnoted]
        simp
    · intro n' k' hplace
      show holds (b.replace (.of (target n k)) w.fleet.1).2 n' k' = _
      rw [hholds]
      simp [Contents.put, hplace]
  have hheld : holds w₁.fleet.1 n k = target n k := (hdelivers.given n k ⟨rfl, rfl⟩).1
  obtain ⟨w₂, hdigests, hidle⟩ : ∃ w₂, (b.inFleet.observed n k).digests w₁ = (.ok digests, w₂) ∧
      Idle streams holds target w₁ w₂ := by
    have hreports := hb.reports w₁.fleet.1 digests (by rw [hheld, hlocal])
    exact ⟨_, Prod.ext hreports rfl, idle_call rfl (hb.digests w₁.fleet.1) rfl⟩
  refine ⟨w₂, ?_, hdelivers.idle hidle⟩
  unfold upload
  rw [id_observed, bind_of_ok (inspectDisk_ok hfetch)]
  simp only
  rw [bind_of_ok (inspectDisk_ok hopen), bind_of_ok hreplace, bind_of_ok hdigests,
    if_pos (by simp [Digests.agrees])]
  rfl

/-- All blobs from a position on are delivered, by induction on those that are left. -/
theorem uploadAll_delivers {ids : List Identifier} (bs : List (Blob F)) (k : Nat)
    (hids : ids.drop k = bs.map (·.id)) (hbacked : Backed a m w.disk)
    (hsupply : ∀ j blob, ids[j]? = some blob → Supply a m w.disk blob (target n j))
    (hfaithful : ∀ j (b : Blob F), bs[j]? = some b → b.Faithful streams holds n (k + j)) :
    ∃ w', uploadAll a (observedBlobs n k (bs.map Blob.inFleet)) w = (.ok (), w') ∧
      Delivers streams holds target (fun n' k' => n' = n ∧ k ≤ k' ∧ k' < ids.length) w w' := by
  induction bs generalizing k w with
  | nil =>
    have hlength : ids.length ≤ k := by simpa using hids
    refine ⟨w, rfl, (keeping_idle.refl w).mono ?_⟩
    intro n' k'
    constructor
    · exact False.elim
    · rintro ⟨-, hle, hlt⟩
      omega
  | cons b rest ih =>
    obtain ⟨hid, hrest⟩ := of_drop_eq_cons hids
    obtain ⟨hlt, -⟩ := List.getElem?_eq_some_iff.mp hid
    obtain ⟨w₁, hupload, hfirst⟩ := upload_delivers hbacked (hsupply k b.id hid) (hfaithful 0 b rfl)
    -- A restore writes nothing to the disk, so the artifact supplies the other blobs as before.
    have hbacked₁ : Backed a m w₁.disk := by
      rw [hfirst.disk]
      exact hbacked
    have hsupply₁ : ∀ j blob, ids[j]? = some blob → Supply a m w₁.disk blob (target n j) := by
      rw [hfirst.disk]
      exact hsupply
    obtain ⟨w₂, hothers, hlast⟩ := ih (k + 1) hrest hbacked₁ hsupply₁
      (tail_places (P := fun k (b : Blob F) => b.Faithful streams holds n k) hfaithful)
    refine ⟨w₂, ?_, (hfirst.trans hlast).mono ?_⟩
    · rw [List.map_cons, observedBlobs, uploadAll, bind_of_ok hupload, hothers]
    · -- The places of the first blob and of the others are those from `k` on.
      intro n' k'
      constructor
      · rintro (⟨rfl, rfl⟩ | ⟨rfl, hle, hlt'⟩)
        · exact ⟨rfl, by omega, hlt⟩
        · exact ⟨rfl, by omega, hlt'⟩
      · rintro ⟨rfl, hle, hlt'⟩
        by_cases hk : k' = k
        · exact .inl ⟨rfl, hk⟩
        · exact .inr ⟨rfl, by omega, hlt'⟩

variable (target) in
theorem answer_idle {ids : List Identifier} {i : Instance F} (hi : i.Faithful streams holds n ids)
    (phase : Phase) (w : World (F × History)) :
    ∃ w' able, (i.inFleet.observed n).capable phase w = (.ok able, w') ∧
      (phase = .restore → ids ≠ [] → able = true) ∧ Idle streams holds target w w' := by
  obtain ⟨able, hable⟩ := hi.answers phase w.fleet.1
  refine ⟨_, able, Prod.ext hable rfl, ?_, idle_call rfl (hi.capable phase w.fleet.1) rfl⟩
  rintro rfl hheld
  have htrue := (hi.movable hheld w.fleet.1).2
  rw [hable] at htrue
  exact Except.ok.inj htrue

variable (target) in
theorem act_idle {ids : List Identifier} {i : Instance F} (hi : i.Faithful streams holds n ids)
    (phase : Phase) (w : World (F × History)) :
    ∃ w' outcome, (i.inFleet.observed n).act phase w = (outcome, w') ∧
      (phase ≠ .cleanup → outcome = .ok ()) ∧ Idle streams holds target w w' :=
  ⟨_, _, rfl, hi.acts phase w.fleet.1, idle_call rfl (hi.act phase w.fleet.1) rfl⟩

variable (target) in
theorem list_idle {ids : List Identifier} {i : Instance F} (hi : i.Faithful streams holds n ids)
    (w : World (F × History)) :
    ∃ w', ∃ bs : List (Blob F),
      (i.inFleet.observed n).blobs w = (.ok (observedBlobs n 0 (bs.map Blob.inFleet)), w') ∧
      bs.map (·.id) = ids ∧ (∀ k (b : Blob F), bs[k]? = some b → b.Faithful streams holds n k) ∧
      Idle streams holds target w w' := by
  obtain ⟨bs, hbs, hids, hfaithful⟩ := hi.lists w.fleet.1
  refine ⟨_, bs, Prod.ext ?_ rfl, hids, hfaithful, idle_call rfl (hi.blobs w.fleet.1) rfl⟩
  show ((i.blobs w.fleet.1).1.map (·.map Blob.inFleet)).map (observedBlobs n 0) = _
  rw [hbs]
  rfl

/-- The data phase of an instance delivers all its blobs. -/
theorem putBack_delivers {ids : List Identifier} {i : Instance F}
    (hi : i.Faithful streams holds n ids) (hbacked : Backed a m w.disk)
    (hsupply : ∀ j blob, ids[j]? = some blob → Supply a m w.disk blob (target n j)) :
    ∃ w', putBack a (i.inFleet.observed n) w = (.ok (), w') ∧
      Delivers streams holds target (fun n' k' => n' = n ∧ k' < ids.length) w w' := by
  obtain ⟨w₁, bs, hlisted, hids, hfaithful, hidle⟩ := list_idle target hi w
  have hbacked₁ : Backed a m w₁.disk := by
    rw [hidle.disk]
    exact hbacked
  have hsupply₁ : ∀ j blob, ids[j]? = some blob → Supply a m w₁.disk blob (target n j) := by
    rw [hidle.disk]
    exact hsupply
  obtain ⟨w₂, hupload, hdelivers⟩ := uploadAll_delivers bs 0 hids.symm hbacked₁ hsupply₁ (by
    intro j b hb
    rw [Nat.zero_add]
    exact hfaithful j b hb)
  obtain ⟨w₃, outcome, hact, hok, hlast⟩ := act_idle target hi .restore w₂
  obtain rfl := hok (by decide)
  refine ⟨w₃, ?_, ((hdelivers.idle hlast).of_idle hidle).mono fun n' k' => by simp⟩
  unfold putBack
  rw [bind_of_ok hlisted, bind_of_ok hupload, hact]

/-- The turn of an instance in the data phase. Without blobs it may not be capable of it. -/
theorem visit_delivers {ids : List Identifier} {i : Instance F}
    (hi : i.Faithful streams holds n ids) (hbacked : Backed a m w.disk)
    (hsupply : ∀ j blob, ids[j]? = some blob → Supply a m w.disk blob (target n j)) :
    ∃ w', Phase.restore.visit (putBack a) (i.inFleet.observed n) w = ([], w') ∧
      Delivers streams holds target (fun n' k' => n' = n ∧ k' < ids.length) w w' := by
  obtain ⟨w₁, able, hanswer, hable, hidle⟩ := answer_idle target hi .restore w
  obtain ⟨w₂, hturn, hdelivers⟩ : ∃ w₂,
      (if able then putBack a (i.inFleet.observed n) else pure ()) w₁ = (.ok (), w₂) ∧
      Delivers streams holds target (fun n' k' => n' = n ∧ k' < ids.length) w₁ w₂ := by
    cases able with
    | true =>
      refine putBack_delivers (m := m) hi ?_ ?_
      · rw [hidle.disk]
        exact hbacked
      · rw [hidle.disk]
        exact hsupply
    | false =>
      obtain rfl : ids = [] := by
        by_contra hheld
        exact Bool.false_ne_true (hable rfl hheld)
      exact ⟨w₁, rfl, (keeping_idle.refl w₁).mono fun n' k' => by simp⟩
  refine ⟨w₂, ?_, hdelivers.of_idle hidle⟩
  unfold Phase.visit Phase.turn
  rw [bind_of_ok hanswer, hturn]

end Instance

/-! ### All instances -/

section Instances

variable {a : Artifact} {m : Metadata} {held : Nat → List Identifier}

/-- The data phase delivers all blobs of the instances, by induction on the instances. -/
theorem sweep_delivers (is : List (Instance F)) (n : Nat)
    (hi : ∀ j (i : Instance F), is[j]? = some i → i.Faithful streams holds (n + j) (held (n + j)))
    (hbacked : Backed a m w.disk)
    (hsupply : ∀ n' k blob, (held n')[k]? = some blob → Supply a m w.disk blob (target n' k)) :
    ∃ w', Phase.restore.sweep (putBack a) (observedFrom n (is.map Instance.inFleet)) w = ([], w') ∧
      Delivers streams holds target
        (fun n' k' => n ≤ n' ∧ n' < n + is.length ∧ k' < (held n').length) w w' := by
  induction is generalizing n w with
  | nil =>
    refine ⟨w, rfl, (keeping_idle.refl w).mono ?_⟩
    intro n' k'
    constructor
    · exact False.elim
    · rintro ⟨hle, hlt, -⟩
      rw [List.length_nil] at hlt
      omega
  | cons i rest ih =>
    obtain ⟨w₁, hvisit, hfirst⟩ := visit_delivers (hi 0 i rfl) hbacked (hsupply (n + 0))
    have hbacked₁ : Backed a m w₁.disk := by
      rw [hfirst.disk]
      exact hbacked
    have hsupply₁ : ∀ n' k blob, (held n')[k]? = some blob →
        Supply a m w₁.disk blob (target n' k) := by
      rw [hfirst.disk]
      exact hsupply
    obtain ⟨w₂, hsweep, hothers⟩ := ih (n + 1)
      (tail_places (P := fun n (i : Instance F) => i.Faithful streams holds n (held n)) hi)
      hbacked₁ hsupply₁
    rw [Nat.add_zero] at hvisit hfirst
    refine ⟨w₂, ?_, (hfirst.trans hothers).mono ?_⟩
    · rw [List.map_cons, observedFrom, Phase.sweep_cons, hvisit, hsweep]
      rfl
    · -- The instances from `n` on are the first one and the others.
      intro n' k'
      rw [List.length_cons]
      constructor
      · rintro (⟨rfl, hlt⟩ | ⟨hle, hlt, hk⟩)
        · exact ⟨Nat.le_refl _, by omega, hlt⟩
        · exact ⟨by omega, by omega, hk⟩
      · rintro ⟨hle, hlt, hk⟩
        by_cases hn : n' = n
        · subst hn
          exact .inl ⟨rfl, hk⟩
        · exact .inr ⟨by omega, by omega, hk⟩

variable (target) in
/-- In the other phases nothing is delivered, and only cleaning up can fail. -/
theorem own_idle (phase : Phase) {is : List (Instance F)}
    (hfaithful : Faithful streams holds held is) (w : World (F × History)) :
    ∃ errors w', phase.sweep phase.own (observedFrom 0 (is.map Instance.inFleet)) w = (errors, w') ∧
      (phase ≠ .cleanup → errors = []) ∧ Idle streams holds target w w' := by
  refine sweep_own_of keeping_idle ?_ ?_ w
  · intro i hi w
    obtain ⟨n, i', hi', rfl⟩ := hfaithful.observed hi
    obtain ⟨w', able, hanswer, -, hidle⟩ := answer_idle target hi' phase w
    exact ⟨able, w', hanswer, hidle⟩
  · intro i hi w
    obtain ⟨n, i', hi', rfl⟩ := hfaithful.observed hi
    obtain ⟨w', outcome, hact, hok, hidle⟩ := act_idle target hi' phase w
    exact ⟨outcome, w', hact, hok, hidle⟩

/-- A restore that enters its phases delivers all blobs, and nothing that would block it
    fails. -/
theorem drive_delivers (policy : Policy) {is : List (Instance F)}
    (hfaithful : Faithful streams holds held is) (hbacked : Backed a m w.disk)
    (hsupply : ∀ n k blob, (held n)[k]? = some blob → Supply a m w.disk blob (target n k)) :
    ∃ p w', drive policy restorePlan (putBack a) (observedFrom 0 (is.map Instance.inFleet)) w =
        (p, w') ∧ p.isBlocked = false ∧
      Delivers streams holds target (fun n k => k < (held n).length) w w' := by
  have hi : ∀ j (i : Instance F), is[j]? = some i →
      i.Faithful streams holds (0 + j) (held (0 + j)) := by
    intro j i hj
    rw [Nat.zero_add]
    exact hfaithful.members j i hj
  obtain ⟨lockErrors, w₁, hlock, hlocked, hidle₁⟩ :=
    own_idle target restorePlan.lock hfaithful w
  obtain rfl := hlocked (by decide)
  obtain ⟨w₂, hsweep, hdelivers⟩ := sweep_delivers (m := m) is 0 hi
    (by rw [hidle₁.disk]; exact hbacked) (by rw [hidle₁.disk]; exact hsupply)
  obtain ⟨unlockErrors, w₃, hunlock, hunlocked, hidle₃⟩ :=
    own_idle target restorePlan.unlock hfaithful w₂
  obtain rfl := hunlocked (by decide)
  obtain ⟨cleanupErrors, w₄, hcleanup, -, hidle₄⟩ := own_idle target .cleanup hfaithful w₃
  obtain ⟨p, hdrive, hfree⟩ := drive_free policy restorePlan hlock hsweep hunlock
  rw [hcleanup] at hdrive
  -- Locking, unlocking and cleaning up give the blobs nothing.
  refine ⟨p, w₄, hdrive, hfree, (((hdelivers.idle hidle₃).idle hidle₄).of_idle hidle₁).mono ?_⟩
  intro n k
  rw [Nat.zero_add]
  constructor
  · exact fun h => h.2.2
  · intro hk
    refine ⟨Nat.zero_le n, hfaithful.within n ?_, hk⟩
    rintro hnil
    rw [hnil] at hk
    cases hk

end Instances

end

end DeploymentBackup.Workflow
