import DeploymentBackup.Proofs.Workflow.Trace

namespace DeploymentBackup.Workflow

open Text Artifact

/-!
# The record of a backup

While the instances have their turns, the record of the artifact goes through blobs in the
order of the instances and of their lists. The invariant ties three things together: what is
recorded, what the archives hold, and what the blobs were seen to do.

* `Backed`, `backed_of_prepare` — the artifact keeps a record that names no blob twice.
* `Traced` — everything that is recorded was earned, up to a place in the order.
* `Traced.quiet`, `Traced.listing`, `Traced.next` — what becomes of it between blobs.
* `Traced.passed`, `Traced.halted`, `Traced.stored` — what becomes of it at one blob.
-/

variable {F : Type}

/-- The place `(n, k)` is in front of the place `(n', k')`. -/
def Earlier (n k n' k' : Nat) : Prop :=
  n < n' ∨ n = n' ∧ k < k'

/-- The artifact can be opened, and it keeps the record `m`, which names no blob twice. -/
structure Backed (a : Artifact) (m : Metadata) (disk : Disk) : Prop where
  sound : a.Sound disk
  opens : openAt disk a.path = .ok a
  record : a.HasRecord m disk
  proper : m.Proper
  once : m.ids.Nodup

/-- A new artifact keeps its first record. -/
theorem backed_of_prepare {a : Artifact} {path manifest : String} {start : Instant}
    {disk disk' : Disk} (hprepare : prepare path manifest start disk = (.ok a, disk'))
    (hlinks : a.HoldsNoLink disk') : Backed a (firstRecord start) disk' where
  sound := (prepare_spec hprepare hlinks).1
  opens := by
    rw [path_of_prepare hprepare]
    exact (prepare_spec hprepare hlinks).2.2
  record := (prepare_spec hprepare hlinks).2.1
  proper := fun r hr => absurd hr List.not_mem_nil
  once := List.nodup_nil

/-- An archive more does not touch the record. -/
theorem Backed.stored {a : Artifact} {m : Metadata} {disk disk' : Disk} (h : Backed a m disk)
    {blob : Identifier} {bytes : Bytes} (hstores : Disk.Stores disk disk' (a.blobPath blob) bytes) :
    Backed a m disk' where
  sound := hstores.clean h.sound
  opens := openAt_sameTree hstores.sameTree h.opens
  record := h.record.of_stores hstores
  proper := h.proper
  once := h.once

/-- A blob more is recorded. -/
theorem Backed.recorded {a : Artifact} {m m' : Metadata} {disk disk' : Disk} (h : Backed a m disk)
    {blob : Identifier} {digests : Digests} (hinserted : m.Inserted blob digests m')
    (hwrites : Disk.Stores disk disk' a.metadataPath (encode m'.print)) : Backed a m' disk' where
  sound := hwrites.clean h.sound
  opens := openAt_sameTree hwrites.sameTree h.opens
  record := hasRecord_of_stores hwrites
  proper := hinserted.proper
  once := hinserted.nodup h.once

/-- The finish is recorded. -/
theorem Backed.finished {a : Artifact} {m : Metadata} {disk disk' : Disk} (h : Backed a m disk)
    {finish : Instant}
    (hwrites : Disk.Stores disk disk' a.metadataPath
      (encode ({ m with finishTime := some finish.stamp } : Metadata).print)) :
    Backed a { m with finishTime := some finish.stamp } disk' where
  sound := hwrites.clean h.sound
  opens := openAt_sameTree hwrites.sameTree h.opens
  record := hasRecord_of_stores hwrites
  proper := h.proper
  once := h.once

/-- The blob `k` of the instance `n` was stored as it is recorded. -/
structure Earned (a : Artifact) (disk : Disk) (h : History) (n k : Nat) (bytes : Bytes)
    (e : Identifier × Digests) : Prop where
  admits : Admits e.1
  holds : h.Holds n k e.1
  capable : ⟨n, .asked .backup (.ok true)⟩ ∈ h
  fetched : ⟨n, .fetched k bytes (.ok ())⟩ ∈ h
  keeps : a.Keeps e.1 bytes disk
  stored : Digests.ofArchive bytes = .ok e.2
  reported : ⟨n, .digested k (.ok e.2)⟩ ∈ h

/-- What is true of the record when the backup has come to the place `(n, k)`; the list of the
    instance `n` is known when it has been asked for it. As long as the run is `clean`,
    nothing was left out that was listed in front of this place. -/
structure Traced (clean : Prop) (a : Artifact) (m : Metadata) (n k : Nat)
    (listed : Option (List Identifier)) (w : World (F × History)) : Prop where
  /-- Lists are asked for in the order of the instances. -/
  listings : ∀ n' ids, ⟨n', .listed (.ok ids)⟩ ∈ w.history → n' < n ∨ n' = n ∧ listed = some ids
  /-- Blobs are called in the order of the lists. -/
  visited : ∀ n' k', w.history.Touched n' k' → Earlier n' k' n k
  /-- A shared blob that was called had been claimed. -/
  claims : ∀ n' k' blob, w.history.Holds n' k' blob → w.history.Touched n' k' →
    blob.isNamed = true → blob ∈ w.claimed
  known : ∀ blob ∈ m.ids, ∃ n' k', w.history.Holds n' k' blob ∧ w.history.Touched n' k'
  /-- What is recorded was stored, in a clean run from the first place where it is held. -/
  earned : w.history.Apart → clean ∨ w.history.Once → ∀ e ∈ m.recorded, ∃ n' k' bytes,
    Earned a w.disk w.history n' k' bytes e ∧
      (clean → ∀ n'' k'', w.history.Holds n'' k'' e.1 → ¬ Earlier n'' k'' n' k')
  spoiled : w.history.Once → ∀ n' k' blob, w.history.Holds n' k' blob →
    w.history.Spoiled n' k' → blob ∉ m.ids
  settled : clean → ∀ blob ∈ w.claimed, blob ∈ m.ids
  covered : clean → ∀ n' k' blob, w.history.Holds n' k' blob → Earlier n' k' n k → blob ∈ m.ids
  single : clean → ∀ n₁ k₁ n₂ k₂ blob, w.history.Holds n₁ k₁ blob → w.history.Holds n₂ k₂ blob →
    blob.isNamed = false → Earlier n₁ k₁ n k → Earlier n₂ k₂ n k → n₁ = n₂ ∧ k₁ = k₂

theorem Earned.touched {a : Artifact} {disk : Disk} {h : History} {n k : Nat} {bytes : Bytes}
    {e : Identifier × Digests} (hearned : Earned a disk h n k bytes e) : h.Touched n k :=
  ⟨.fetched k bytes (.ok ()), rfl, hearned.fetched⟩

theorem Earned.mono {a : Artifact} {disk disk' : Disk} {h h' : History} {n k : Nat} {bytes : Bytes}
    {e : Identifier × Digests} (hearned : Earned a disk h n k bytes e) (hsub : h ⊆ h')
    (hkeeps : a.Keeps e.1 bytes disk') : Earned a disk' h' n k bytes e where
  admits := hearned.admits
  holds := hearned.holds.mono hsub
  capable := hsub hearned.capable
  fetched := hsub hearned.fetched
  keeps := hkeeps
  stored := hearned.stored
  reported := hsub hearned.reported

section Step

variable {clean clean' : Prop} {a : Artifact} {m m' : Metadata} {n k : Nat}
  {listed : Option (List Identifier)} {w w' : World (F × History)} {blob : Identifier}

theorem Traced.weaken (h : Traced clean a m n k listed w) (himp : clean' → clean) :
    Traced clean' a m n k listed w where
  listings := h.listings
  visited := h.visited
  claims := h.claims
  known := h.known
  earned := by
    intro hapart hwhy e he
    obtain ⟨n', k', bytes, hearned, hfirst⟩ := h.earned hapart (hwhy.imp_left himp) e he
    exact ⟨n', k', bytes, hearned, fun hclean => hfirst (himp hclean)⟩
  spoiled := h.spoiled
  settled := fun hclean => h.settled (himp hclean)
  covered := fun hclean => h.covered (himp hclean)
  single := fun hclean => h.single (himp hclean)

/-- What is recorded was called, and stays so. -/
theorem Traced.known_mono (h : Traced clean a m n k listed w) (hsub : w.history ⊆ w'.history) :
    ∀ other ∈ m.ids, ∃ n' k', w'.history.Holds n' k' other ∧ w'.history.Touched n' k' := by
  intro other hother
  obtain ⟨n', k', hh, call, hat, hmem⟩ := h.known other hother
  exact ⟨n', k', hh.mono hsub, call, hat, hsub hmem⟩

/-! ### Steps without a blob -/

/-- Calls that neither list blobs nor call one change nothing. -/
theorem Traced.quiet (h : Traced clean a m n k listed w) {events : History}
    (hdisk : w'.disk = w.disk) (hclaimed : w'.claimed = w.claimed)
    (hhistory : w'.history = w.history ++ events)
    (hquiet : ∀ e ∈ events, History.movesNothing e.call) : Traced clean a m n k listed w' := by
  have hsub : w.history ⊆ w'.history := by
    rw [hhistory]
    exact List.subset_append_left _ _
  -- The calls neither list blobs nor call one, so that nothing new is held, touched or spoiled.
  have hlists : ∀ e ∈ events, ∀ ids, e.call ≠ .listed (.ok ids) := by
    intro e he ids hcall
    have hnone := hquiet e he
    rw [hcall] at hnone
    exact hnone
  have hcalls : ∀ e ∈ events, ∀ j, ¬ isAt j e.call := by
    intro e he j hat
    have hnone := hquiet e he
    cases hcall : e.call <;> rw [hcall] at hat hnone <;> first | exact hat | exact hnone
  have hholds {n' k' : Nat} {blob : Identifier} (hh : w'.history.Holds n' k' blob) :
      w.history.Holds n' k' blob := by
    rw [hhistory] at hh
    exact hh.of_append fun e he _ => hlists e he
  have htouched {n' k' : Nat} (ht : w'.history.Touched n' k') : w.history.Touched n' k' := by
    rw [hhistory] at ht
    exact ht.of_append fun e he _ => hcalls e he k'
  have hspoiled {n' k' : Nat} (hs : w'.history.Spoiled n' k') : w.history.Spoiled n' k' := by
    rw [hhistory] at hs
    exact hs.of_append fun e he _ => hcalls e he k'
  exact
    { listings := by
        intro n' ids hmem
        rw [hhistory] at hmem
        rcases List.mem_append.mp hmem with hmem | hmem
        · exact h.listings n' ids hmem
        · exact absurd rfl (hlists _ hmem ids)
      visited := fun n' k' ht => h.visited n' k' (htouched ht)
      claims := by
        intro n' k' blob hh ht hnamed
        rw [hclaimed]
        exact h.claims n' k' blob (hholds hh) (htouched ht) hnamed
      known := h.known_mono hsub
      earned := by
        intro hapart hwhy e he
        obtain ⟨n', k', bytes, hearned, hfirst⟩ :=
          h.earned (hapart.mono hsub) (hwhy.imp_right fun honce => honce.mono hsub) e he
        refine ⟨n', k', bytes, hearned.mono hsub (by rw [hdisk]; exact hearned.keeps), ?_⟩
        exact fun hclean n'' k'' hh => hfirst hclean n'' k'' (hholds hh)
      spoiled := fun honce n' k' blob hh hs =>
        h.spoiled (honce.mono hsub) n' k' blob (hholds hh) (hspoiled hs)
      settled := by
        rw [hclaimed]
        exact h.settled
      covered := fun hclean n' k' blob hh => h.covered hclean n' k' blob (hholds hh)
      single := fun hclean n₁ k₁ n₂ k₂ blob hh hh' =>
        h.single hclean n₁ k₁ n₂ k₂ blob (hholds hh) (hholds hh') }

/-- The list of an instance is known from the time when it has been asked for it. -/
theorem Traced.listing (h : Traced clean a m n 0 none w) {ids : List Identifier}
    (hdisk : w'.disk = w.disk) (hclaimed : w'.claimed = w.claimed)
    (hhistory : w'.history = w.history ++ [⟨n, .listed (.ok ids)⟩]) :
    Traced clean a m n 0 (some ids) w' := by
  have hsub : w.history ⊆ w'.history := by
    rw [hhistory]
    exact List.subset_append_left _ _
  have hholds {n' k' : Nat} {blob : Identifier} (hn : n' < n) (hh : w'.history.Holds n' k' blob) :
      w.history.Holds n' k' blob := by
    rw [hhistory] at hh
    refine hh.of_append fun e he hmember => ?_
    obtain rfl := List.mem_singleton.mp he
    exact absurd hmember (Nat.ne_of_gt hn)
  have hcalls : ∀ e ∈ [(⟨n, .listed (.ok ids)⟩ : Event)], ∀ j, ¬ isAt j e.call := by
    intro e he j
    obtain rfl := List.mem_singleton.mp he
    exact id
  have htouched {n' k' : Nat} (ht : w'.history.Touched n' k') : w.history.Touched n' k' := by
    rw [hhistory] at ht
    exact ht.of_append fun e he _ => hcalls e he k'
  have hspoiled {n' k' : Nat} (hs : w'.history.Spoiled n' k') : w.history.Spoiled n' k' := by
    rw [hhistory] at hs
    exact hs.of_append fun e he _ => hcalls e he k'
  -- Everything that was called so far belongs to the instances in front of this one.
  have hfront {n' k' : Nat} (hearlier : Earlier n' k' n 0) : n' < n := by
    rcases hearlier with hlt | ⟨-, hlt⟩
    · exact hlt
    · omega
  exact
    { listings := by
        intro n' ids' hmem
        rw [hhistory] at hmem
        rcases List.mem_append.mp hmem with hmem | hmem
        · rcases h.listings n' ids' hmem with hlt | ⟨-, hnone⟩
          · exact .inl hlt
          · cases hnone
        · cases List.mem_singleton.mp hmem
          exact .inr ⟨rfl, rfl⟩
      visited := fun n' k' ht => h.visited n' k' (htouched ht)
      claims := by
        intro n' k' blob hh ht hnamed
        rw [hclaimed]
        have hn := hfront (h.visited n' k' (htouched ht))
        exact h.claims n' k' blob (hholds hn hh) (htouched ht) hnamed
      known := h.known_mono hsub
      earned := by
        intro hapart hwhy e he
        obtain ⟨n', k', bytes, hearned, hfirst⟩ :=
          h.earned (hapart.mono hsub) (hwhy.imp_right fun honce => honce.mono hsub) e he
        refine ⟨n', k', bytes, hearned.mono hsub (by rw [hdisk]; exact hearned.keeps), ?_⟩
        intro hclean n'' k'' hh hearlier
        have hn := hfront (h.visited n' k' hearned.touched)
        have hn'' : n'' < n := by
          unfold Earlier at hearlier
          omega
        exact hfirst hclean n'' k'' (hholds hn'' hh) hearlier
      spoiled := by
        intro honce n' k' blob hh hs
        have hn := hfront (h.visited n' k' (hspoiled hs).touched)
        exact h.spoiled (honce.mono hsub) n' k' blob (hholds hn hh) (hspoiled hs)
      settled := by
        rw [hclaimed]
        exact h.settled
      covered := fun hclean n' k' blob hh hearlier =>
        h.covered hclean n' k' blob (hholds (hfront hearlier) hh) hearlier
      single := fun hclean n₁ k₁ n₂ k₂ blob hh hh' hnamed h₁ h₂ =>
        h.single hclean n₁ k₁ n₂ k₂ blob (hholds (hfront h₁) hh) (hholds (hfront h₂) hh') hnamed
          h₁ h₂ }

/-- The turn of the next instance comes when the list of this one is at its end. -/
theorem Traced.next (h : Traced clean a m n k listed w)
    (hend : clean → ∀ ids, listed = some ids → ids.length ≤ k) :
    Traced clean a m (n + 1) 0 none w := by
  -- In a clean run all blobs that were listed are behind.
  have hhere {n' k' : Nat} {blob : Identifier} (hclean : clean)
      (hh : w.history.Holds n' k' blob) : Earlier n' k' n k := by
    obtain ⟨ids, hmem, hid⟩ := hh
    rcases h.listings n' ids hmem with hlt | ⟨rfl, hlisted⟩
    · exact .inl hlt
    · obtain ⟨hlength, -⟩ := List.getElem?_eq_some_iff.mp hid
      have hle := hend hclean ids hlisted
      exact .inr ⟨rfl, by omega⟩
  exact
    { listings := by
        intro n' ids hmem
        rcases h.listings n' ids hmem with hlt | ⟨rfl, -⟩
        · exact .inl (by omega)
        · exact .inl (by omega)
      visited := by
        intro n' k' ht
        have hearlier := h.visited n' k' ht
        unfold Earlier at *
        omega
      claims := h.claims
      known := h.known
      earned := h.earned
      spoiled := h.spoiled
      settled := h.settled
      covered := fun hclean n' k' blob hh _ => h.covered hclean n' k' blob hh (hhere hclean hh)
      single := fun hclean n₁ k₁ n₂ k₂ blob hh hh' hnamed _ _ =>
        h.single hclean n₁ k₁ n₂ k₂ blob hh hh' hnamed (hhere hclean hh) (hhere hclean hh') }

/-! ### The step of one blob -/

/-- The blob at a place is the one that was listed there. -/
theorem Traced.holds_here (h : Traced clean a m n k listed w) {other : Identifier}
    (hholds : w.history.Holds n k blob) (hother : w.history.Holds n k other) : other = blob := by
  obtain ⟨ids, hids, hblob⟩ := hholds
  obtain ⟨ids', hids', hother⟩ := hother
  rcases h.listings n ids hids with hlt | ⟨-, hlisted⟩
  · omega
  · rcases h.listings n ids' hids' with hlt | ⟨-, hlisted'⟩
    · omega
    · rw [hlisted] at hlisted'
      cases hlisted'
      rw [hblob] at hother
      exact (Option.some.inj hother).symm

theorem earlier_succ {n' k' : Nat} (h : Earlier n' k' n (k + 1)) :
    Earlier n' k' n k ∨ n' = n ∧ k' = k := by
  unfold Earlier at *
  omega

/-- A shared blob that has been claimed is passed over. -/
theorem Traced.passed (h : Traced clean a m n k listed w) (hholds : w.history.Holds n k blob)
    (hnamed : blob.isNamed = true) (hclaimed : blob ∈ w.claimed) :
    Traced clean a m n (k + 1) listed w where
  listings := h.listings
  visited := by
    intro n' k' ht
    have hearlier := h.visited n' k' ht
    unfold Earlier at *
    omega
  claims := h.claims
  known := h.known
  earned := h.earned
  spoiled := h.spoiled
  settled := h.settled
  covered := by
    intro hclean n' k' other hh hearlier
    rcases earlier_succ hearlier with hearlier | ⟨rfl, rfl⟩
    · exact h.covered hclean n' k' other hh hearlier
    · -- What another instance has taken is recorded in a run that is clean.
      rw [h.holds_here hholds hh]
      exact h.settled hclean blob hclaimed
  single := by
    intro hclean n₁ k₁ n₂ k₂ other hh hh' hother h₁ h₂
    -- A blob that was passed over is shared, so it says nothing about those that are not.
    have hne : other ≠ blob := by
      rintro rfl
      rw [hnamed] at hother
      cases hother
    rcases earlier_succ h₁ with h₁ | ⟨rfl, rfl⟩
    · rcases earlier_succ h₂ with h₂ | ⟨rfl, rfl⟩
      · exact h.single hclean n₁ k₁ n₂ k₂ other hh hh' hother h₁ h₂
      · exact absurd (h.holds_here hholds hh') hne
    · exact absurd (h.holds_here hholds hh) hne

/-- The blob `blob` is at the place `(n, k)`, it was free, and between the two worlds it was
    called. -/
structure Called (n k : Nat) (blob : Identifier) (calls : List Call)
    (w w' : World (F × History)) : Prop where
  history : w'.history = w.history ++ calls.map (Event.mk n)
  own : ∀ c ∈ calls, isAt k c
  here : w.history.Holds n k blob
  free : blob.isNamed = true → blob ∉ w.claimed
  claimed : ∀ other, other ∈ w'.claimed ↔ other ∈ w.claimed ∨ blob.isNamed = true ∧ other = blob

namespace Called

variable {calls : List Call}

theorem subset (h : Called n k blob calls w w') : w.history ⊆ w'.history := by
  rw [h.history]
  exact List.subset_append_left _ _

theorem mem_own (h : Called n k blob calls w w') {e : Event} (he : e ∈ calls.map (Event.mk n)) :
    e.member = n ∧ isAt k e.call := by
  obtain ⟨c, hc, rfl⟩ := List.mem_map.mp he
  exact ⟨rfl, h.own c hc⟩

theorem holds (h : Called n k blob calls w w') {n' k' : Nat} {other : Identifier}
    (hh : w'.history.Holds n' k' other) : w.history.Holds n' k' other := by
  rw [h.history] at hh
  refine hh.of_append fun e he _ ids hcall => ?_
  have hat := (h.mem_own he).2
  rw [hcall] at hat
  exact hat

theorem elsewhere (h : Called n k blob calls w w') {n' k' : Nat} (hne : ¬ (n' = n ∧ k' = k)) :
    ∀ e ∈ calls.map (Event.mk n), e.member = n' → ¬ isAt k' e.call := by
  intro e he hmember hat
  obtain ⟨hmine, hhere⟩ := h.mem_own he
  refine hne ⟨hmember.symm.trans hmine, ?_⟩
  cases hcall : e.call <;> rw [hcall] at hat hhere <;>
    first | exact hat.symm.trans hhere | exact absurd hat id

theorem touched (h : Called n k blob calls w w') {n' k' : Nat} (hne : ¬ (n' = n ∧ k' = k))
    (ht : w'.history.Touched n' k') : w.history.Touched n' k' := by
  rw [h.history] at ht
  exact ht.of_append (h.elsewhere hne)

theorem spoiled (h : Called n k blob calls w w') {n' k' : Nat} (hne : ¬ (n' = n ∧ k' = k))
    (hs : w'.history.Spoiled n' k') : w.history.Spoiled n' k' := by
  rw [h.history] at hs
  exact hs.of_append (h.elsewhere hne)

end Called

/-- A blob that comes to its turn and is free is not recorded yet. -/
theorem Traced.fresh (h : Traced clean a m n k listed w) (honce : w.history.Once)
    (hholds : w.history.Holds n k blob) (hfree : blob.isNamed = true → blob ∉ w.claimed) :
    blob ∉ m.ids := by
  intro hrecorded
  obtain ⟨n', k', hh, htouched⟩ := h.known blob hrecorded
  cases hnamed : blob.isNamed with
  | true => exact hfree hnamed (h.claims n' k' blob hh htouched hnamed)
  | false =>
    -- Only the blob at this place can be the recorded one, and it has not been called yet.
    obtain ⟨rfl, rfl⟩ := honce _ _ _ _ _ hh hholds hnamed
    rcases h.visited _ _ htouched with hlt | ⟨-, hlt⟩ <;> omega

/-! #### What both ends of a transfer have in common -/

section Common

variable {calls : List Call}

theorem Traced.listings_called (h : Traced clean a m n k listed w)
    (hcalled : Called n k blob calls w w') :
    ∀ n' ids, ⟨n', .listed (.ok ids)⟩ ∈ w'.history → n' < n ∨ n' = n ∧ listed = some ids := by
  intro n' ids hmem
  rw [hcalled.history] at hmem
  rcases List.mem_append.mp hmem with hmem | hmem
  · exact h.listings n' ids hmem
  · exact absurd (hcalled.mem_own hmem).2 id

theorem Traced.visited_called (h : Traced clean a m n k listed w)
    (hcalled : Called n k blob calls w w') :
    ∀ n' k', w'.history.Touched n' k' → Earlier n' k' n (k + 1) := by
  intro n' k' ht
  by_cases hhere : n' = n ∧ k' = k
  · unfold Earlier
    omega
  · have hearlier := h.visited n' k' (hcalled.touched hhere ht)
    unfold Earlier at *
    omega

theorem Traced.claims_called (h : Traced clean a m n k listed w)
    (hcalled : Called n k blob calls w w') :
    ∀ n' k' other, w'.history.Holds n' k' other → w'.history.Touched n' k' →
      other.isNamed = true → other ∈ w'.claimed := by
  intro n' k' other hh ht hnamed
  rw [hcalled.claimed]
  by_cases hhere : n' = n ∧ k' = k
  · obtain ⟨rfl, rfl⟩ := hhere
    obtain rfl := h.holds_here hcalled.here (hcalled.holds hh)
    exact .inr ⟨hnamed, rfl⟩
  · exact .inl (h.claims n' k' other (hcalled.holds hh) (hcalled.touched hhere ht) hnamed)

/-- What was earned before stays, because the archive of another blob is written. -/
theorem Traced.earned_called (h : Traced clean a m n k listed w)
    (hcalled : Called n k blob calls w w') (hfresh : blob ∉ m.ids)
    (hkeeps : ∀ other bytes, other.fileName ≠ blob.fileName → a.Keeps other bytes w.disk →
      a.Keeps other bytes w'.disk)
    (hapart : w'.history.Apart) (hwhy : clean ∨ w'.history.Once) (e : Identifier × Digests)
    (he : e ∈ m.recorded) : ∃ n' k' bytes, Earned a w'.disk w'.history n' k' bytes e ∧
      (clean → ∀ n'' k'', w'.history.Holds n'' k'' e.1 → ¬ Earlier n'' k'' n' k') := by
  obtain ⟨n', k', bytes, hearned, hfirst⟩ := h.earned (hapart.mono hcalled.subset)
    (hwhy.imp_right fun honce => honce.mono hcalled.subset) e he
  have hne : e.1.fileName ≠ blob.fileName := by
    intro hname
    have hsame := hapart _ _ _ _ _ _ (hearned.holds.mono hcalled.subset)
      (hcalled.here.mono hcalled.subset) hname
    apply hfresh
    rw [← hsame]
    exact List.mem_map_of_mem he
  refine ⟨n', k', bytes, hearned.mono hcalled.subset (hkeeps _ _ hne hearned.keeps), ?_⟩
  exact fun hclean n'' k'' hh => hfirst hclean n'' k'' (hcalled.holds hh)

/-- A transfer that fails records nothing, and the run is not clean any more. -/
theorem Traced.halted (h : Traced clean a m n k listed w) (hcalled : Called n k blob calls w w')
    (hkeeps : ∀ other bytes, other.fileName ≠ blob.fileName → a.Keeps other bytes w.disk →
      a.Keeps other bytes w'.disk) : Traced False a m n (k + 1) listed w' where
  listings := h.listings_called hcalled
  visited := h.visited_called hcalled
  claims := h.claims_called hcalled
  known := h.known_mono hcalled.subset
  earned := by
    intro hapart hwhy e he
    -- The run is not clean any more, so only the reason without it is left.
    have honce : w'.history.Once := hwhy.resolve_left id
    have hfresh := h.fresh (honce.mono hcalled.subset) hcalled.here hcalled.free
    obtain ⟨n', k', bytes, hearned, -⟩ :=
      h.earned_called hcalled hfresh hkeeps hapart (.inr honce) e he
    exact ⟨n', k', bytes, hearned, fun hclean => absurd hclean id⟩
  spoiled := by
    intro honce n' k' other hh hs
    -- Here the blob itself is the one that may be spoiled, and it is not recorded.
    by_cases hhere : n' = n ∧ k' = k
    · obtain ⟨rfl, rfl⟩ := hhere
      obtain rfl := h.holds_here hcalled.here (hcalled.holds hh)
      exact h.fresh (honce.mono hcalled.subset) hcalled.here hcalled.free
    · exact h.spoiled (honce.mono hcalled.subset) n' k' other (hcalled.holds hh)
        (hcalled.spoiled hhere hs)
  settled := fun hclean => absurd hclean id
  covered := fun hclean => absurd hclean id
  single := fun hclean => absurd hclean id

end Common

/-- The calls of a transfer that is recorded spoil nothing. -/
theorem Called.not_spoiled {size : Except Halt String} {bytes : Bytes} {digests : Digests}
    (hcalled : Called n k blob [.sized k size, .fetched k bytes (.ok ()), .digested k (.ok digests)]
      w w')
    (hlocal : Digests.ofArchive bytes = .ok digests) (huntouched : ¬ w.history.Touched n k) :
    ¬ w'.history.Spoiled n k := by
  have hnew {call : Call} (hmem : ⟨n, call⟩ ∈ w'.history) (hat : isAt k call) :
      call = .sized k size ∨ call = .fetched k bytes (.ok ()) ∨
        call = .digested k (.ok digests) := by
    rw [hcalled.history] at hmem
    rcases List.mem_append.mp hmem with hmem | hmem
    · exact absurd ⟨call, hat, hmem⟩ huntouched
    · simpa using hmem
  rintro (⟨bytes', halt, hmem⟩ | ⟨bytes', outcome, fault, hmem, hfault⟩ | ⟨halt, hmem⟩ |
    ⟨bytes', outcome, stored, remote, hmem, hstored, hmem', hne⟩)
  · rcases hnew hmem rfl with h | h | h <;> cases h
  · obtain h | h | h := hnew hmem rfl <;> cases h
    rw [hlocal] at hfault
    cases hfault
  · rcases hnew hmem rfl with h | h | h <;> cases h
  · obtain h | h | h := hnew hmem rfl <;> cases h
    obtain h | h | h := hnew hmem' rfl <;> cases h
    rw [hlocal] at hstored
    exact hne (Except.ok.inj hstored).symm

/-- A blob that is recorded now was not spoiled, nor was another holder of it before. -/
theorem Traced.spoiled_called (h : Traced clean a m n k listed w) {calls : List Call}
    {digests : Digests} (hcalled : Called n k blob calls w w')
    (hinserted : Metadata.Inserted m blob digests m') (hhere : ¬ w'.history.Spoiled n k) :
    w'.history.Once → ∀ n' k' other, w'.history.Holds n' k' other → w'.history.Spoiled n' k' →
      other ∉ m'.ids := by
  intro honce n' k' other hh hs hother
  by_cases hplace : n' = n ∧ k' = k
  · obtain ⟨rfl, rfl⟩ := hplace
    exact hhere hs
  · have hbefore := hcalled.spoiled hplace hs
    rcases hinserted.mem_ids.mp hother with rfl | hother
    · -- Another holder came first, so this one was not free.
      cases hnamed : other.isNamed with
      | true =>
        exact hcalled.free hnamed
          (h.claims n' k' other (hcalled.holds hh) hbefore.touched hnamed)
      | false => exact hplace (honce _ _ _ _ _ hh (hcalled.here.mono hcalled.subset) hnamed)
    · exact h.spoiled (honce.mono hcalled.subset) n' k' other (hcalled.holds hh) hbefore hother

/-- A blob that is not shared and was not recorded has no holder in front of this place, so that
    it has only one up to here. -/
theorem Traced.single_called (h : Traced clean a m n k listed w) {calls : List Call}
    (hcalled : Called n k blob calls w w') (hfresh : blob ∉ m.ids) :
    clean → ∀ n₁ k₁ n₂ k₂ other, w'.history.Holds n₁ k₁ other → w'.history.Holds n₂ k₂ other →
      other.isNamed = false → Earlier n₁ k₁ n (k + 1) → Earlier n₂ k₂ n (k + 1) →
      n₁ = n₂ ∧ k₁ = k₂ := by
  intro hclean n₁ k₁ n₂ k₂ other hh hh' hother h₁ h₂
  have hnew {n' k' : Nat} (hold : w.history.Holds n' k' blob) (hlt : Earlier n' k' n k) :
      False := hfresh (h.covered hclean n' k' blob hold hlt)
  have hold := hcalled.holds hh
  have hold' := hcalled.holds hh'
  rcases earlier_succ h₁ with h₁ | ⟨rfl, rfl⟩
  · rcases earlier_succ h₂ with h₂ | ⟨rfl, rfl⟩
    · exact h.single hclean n₁ k₁ n₂ k₂ other hold hold' hother h₁ h₂
    · obtain rfl := h.holds_here hcalled.here hold'
      exact absurd h₁ (hnew hold)
  · obtain rfl := h.holds_here hcalled.here hold
    rcases earlier_succ h₂ with h₂ | ⟨rfl, rfl⟩
    · exact absurd h₂ (hnew hold')
    · exact ⟨rfl, rfl⟩

/-- A transfer that succeeds records the blob, whose bytes were stored. -/
theorem Traced.stored (h : Traced clean a m n k listed w) {size : Except Halt String}
    {bytes : Bytes} {digests : Digests}
    (hcalled : Called n k blob [.sized k size, .fetched k bytes (.ok ()), .digested k (.ok digests)]
      w w')
    (hcapable : ⟨n, .asked .backup (.ok true)⟩ ∈ w.history) (hadmits : Admits blob)
    (hlocal : Digests.ofArchive bytes = .ok digests) (hkept : a.Keeps blob bytes w'.disk)
    (hinserted : Metadata.Inserted m blob digests m')
    (hkeeps : ∀ other bytes, other.fileName ≠ blob.fileName → a.Keeps other bytes w.disk →
      a.Keeps other bytes w'.disk) : Traced clean a m' n (k + 1) listed w' := by
  have huntouched : ¬ w.history.Touched n k := by
    intro ht
    rcases h.visited n k ht with hlt | ⟨-, hlt⟩ <;> omega
  have hmem {call : Call} (hcall : call ∈ [Call.sized k size, .fetched k bytes (.ok ()),
      .digested k (.ok digests)]) : ⟨n, call⟩ ∈ w'.history := by
    rw [hcalled.history]
    exact List.mem_append_right _ (List.mem_map_of_mem hcall)
  have hhere : w'.history.Holds n k blob := hcalled.here.mono hcalled.subset
  have hearned : Earned a w'.disk w'.history n k bytes (blob, digests) :=
    ⟨hadmits, hhere, hcalled.subset hcapable, hmem (by simp), hkept, hlocal, hmem (by simp)⟩
  -- Everything that is said of other blobs is as before; what is new is said of this one.
  exact
    { listings := h.listings_called hcalled
      visited := h.visited_called hcalled
      claims := h.claims_called hcalled
      known := by
        intro other hother
        rcases hinserted.mem_ids.mp hother with rfl | hother
        · exact ⟨n, k, hhere, hearned.touched⟩
        · exact h.known_mono hcalled.subset other hother
      earned := by
        intro hapart hwhy e he
        rcases hinserted.mem_recorded.mp he with rfl | he
        · -- A holder in front of this place would have been recorded there.
          refine ⟨n, k, bytes, hearned, ?_⟩
          intro hclean n' k' hh hearlier
          exact hinserted.fresh (h.covered hclean n' k' blob (hcalled.holds hh) hearlier)
        · exact h.earned_called hcalled hinserted.fresh hkeeps hapart hwhy e he
      spoiled := h.spoiled_called hcalled hinserted
        (hcalled.not_spoiled hlocal huntouched)
      settled := by
        intro hclean other hother
        rcases (hcalled.claimed other).mp hother with hother | ⟨-, rfl⟩
        · exact hinserted.mem_ids.mpr (.inr (h.settled hclean other hother))
        · exact hinserted.mem_ids.mpr (.inl rfl)
      covered := by
        intro hclean n' k' other hh hearlier
        rcases earlier_succ hearlier with hearlier | ⟨rfl, rfl⟩
        · exact hinserted.mem_ids.mpr
            (.inr (h.covered hclean n' k' other (hcalled.holds hh) hearlier))
        · exact hinserted.mem_ids.mpr (.inl (h.holds_here hcalled.here (hcalled.holds hh)))
      single := h.single_called hcalled hinserted.fresh }

end Step

end DeploymentBackup.Workflow
