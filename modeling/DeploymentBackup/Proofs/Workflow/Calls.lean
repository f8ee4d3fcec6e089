import DeploymentBackup.Proofs.Workflow.History

namespace DeploymentBackup

/-!
# The calls of an action

Whatever the members of a deployment do, an action of a workflow calls them in the order that it
is made of, and a call that halts is its last one and tells how it ends; only a size that is not
known is no failure. Behind calls that did not halt, an action ends with a failure of the
artifact or with digests that differ, or it has gone through.

* `Act.Notes` — the calls that an action notes, together with how it ends.
* `Moves`, `Receives` — what one blob is called for in a backup and in a restore.
* `WorksOff` — a list of blobs, up to the first one that halts.
* `notes_transferAll`, `notes_uploadAll` — both data phases work off the list of blobs.
* `notes_listed` — the list itself.
-/

variable {F : Type} {α β : Type}

/-- A call of a blob. -/
def Call.isOfBlob : Call → Bool
  | .sized .. | .digested .. | .fetched .. | .replaced .. => true
  | .asked .. | .acted .. | .listed .. => false

/-! ### What an action notes -/

/-- An action of the instance at a position notes calls of this instance alone. -/
def Act.Notes (n : Nat) (x : Act (World (F × History)) α)
    (P : List Call → Except Halt α → Prop) : Prop :=
  ∀ w, ∃ calls, (x w).2.history = w.history ++ calls.map (Event.mk n) ∧ P calls (x w).1

namespace Act

variable {n : Nat}

theorem notes_observed (x : Act (World F) α) (call : Except Halt α → Call) :
    Notes n (x.observed fun r => ⟨n, call r⟩) fun calls r => calls = [call r] := by
  intro w
  exact ⟨_, rfl, rfl⟩

theorem notes_pure (a : α) :
    Notes n (Pure.pure a : Act (World (F × History)) α) fun calls r => calls = [] ∧ r = .ok a := by
  intro w
  exact ⟨[], (List.append_nil _).symm, rfl, rfl⟩

theorem notes_fail (cause : Instance.Fault) :
    Notes n (Act.fail cause : Act (World (F × History)) α) fun calls r =>
      calls = [] ∧ r = .error (.fault cause) := by
  intro w
  exact ⟨[], (List.append_nil _).symm, rfl, rfl⟩

variable {x : Act (World (F × History)) α} {P : List Call → Except Halt α → Prop}

theorem Notes.mono {Q : List Call → Except Halt α → Prop} (h : Notes n x P)
    (hPQ : ∀ calls r, P calls r → Q calls r) : Notes n x Q := by
  intro w
  obtain ⟨calls, hhistory, hP⟩ := h w
  exact ⟨calls, hhistory, hPQ _ _ hP⟩

/-- Either the first action halts, or the calls of the second one follow. -/
theorem Notes.bind (h : Notes n x P) {y : α → Act (World (F × History)) β}
    {Q : α → List Call → Except Halt β → Prop} (h' : ∀ a, Notes n (y a) (Q a)) :
    Notes n (x >>= y) fun calls r =>
      (∃ halt, P calls (.error halt) ∧ r = .error halt) ∨
        ∃ a first rest, P first (.ok a) ∧ Q a rest r ∧ calls = first ++ rest := by
  intro w
  obtain ⟨first, hfirst, hP⟩ := h w
  rw [bind_apply]
  rcases hx : x w with ⟨halt | a, after⟩
  · rw [hx] at hfirst hP
    exact ⟨first, hfirst, .inl ⟨halt, hP, rfl⟩⟩
  · rw [hx] at hfirst hP
    obtain ⟨rest, hrest, hQ⟩ := h' a after
    refine ⟨first ++ rest, ?_, .inr ⟨a, first, rest, hP, hQ, rfl⟩⟩
    rw [hrest, hfirst, List.map_append, List.append_assoc]

/-- An attempt notes the same calls, and makes a value of a failure. -/
theorem Notes.attempt (h : Notes n x P) :
    Notes n x.attempt fun calls r => ∃ r', P calls r' ∧ r = attempted r' := by
  intro w
  obtain ⟨calls, hhistory, hP⟩ := h w
  rw [attempt_eq]
  exact ⟨calls, hhistory, _, hP, rfl⟩

end Act

namespace Workflow

open Act hiding pure bind

variable {n : Nat}

/-! ### One blob -/

/-- What the blob `k` is called for when it is moved, and how that ends: it streams once at most,
    and it is asked for its digests only behind that. Where no call halts, the failure is that of
    the artifact, or tells this blob. -/
inductive Moves (k : Nat) (blob : Identifier) : List Call → Except Halt Unit → Prop
  | panicked (payload : Panic) :
      Moves k blob [.sized k (.error (.panic payload))] (.error (.panic payload))
  | unopened (size : Except Halt String) (fault : Artifact.Fault) :
      Moves k blob [.sized k size] (.error (.fault (.artifact fault)))
  | unstreamed (size : Except Halt String) (bytes : Text.Bytes) (halt : Halt) :
      Moves k blob [.sized k size, .fetched k bytes (.error halt)] (.error halt)
  | unread (size : Except Halt String) (bytes : Text.Bytes) (fault : Artifact.Fault) :
      Moves k blob [.sized k size, .fetched k bytes (.ok ())] (.error (.fault (.artifact fault)))
  | unreported (size : Except Halt String) (bytes : Text.Bytes) (halt : Halt) :
      Moves k blob [.sized k size, .fetched k bytes (.ok ()), .digested k (.error halt)]
        (.error halt)
  | differing (size : Except Halt String) (bytes : Text.Bytes) (digests : Digests)
      (differences : String) :
      Moves k blob [.sized k size, .fetched k bytes (.ok ()), .digested k (.ok digests)]
        (.error (.fault (.integrity blob differences)))
  | refused (size : Except Halt String) (bytes : Text.Bytes) (digests : Digests)
      (fault : Artifact.Fault) :
      Moves k blob [.sized k size, .fetched k bytes (.ok ()), .digested k (.ok digests)]
        (.error (.fault (.artifact fault)))
  | confirmed (size : Except Halt String) (bytes : Text.Bytes) (digests : Digests) :
      Moves k blob [.sized k size, .fetched k bytes (.ok ()), .digested k (.ok digests)] (.ok ())

/-- A shared blob may be passed over without a call; every other one is moved. -/
def PassedOrMoved (k : Nat) (blob : Identifier) (calls : List Call) (outcome : Except Halt Unit) :
    Prop :=
  blob.isNamed = true ∧ calls = [] ∧ outcome = .ok () ∨ Moves k blob calls outcome

/-- What the blob `k` is called for when it is put back, and how that ends: it is given one
    archive at most, and it reports its digests behind that. Where no call halts, the failure is
    that of the artifact, or tells this blob. -/
inductive Receives (k : Nat) (blob : Identifier) : List Call → Except Halt Unit → Prop
  | unrecorded : Receives k blob [] (.error (.fault (.missingChecksum blob)))
  | unopened (fault : Artifact.Fault) : Receives k blob [] (.error (.fault (.artifact fault)))
  | unreceived (source : Source) (halt : Halt) :
      Receives k blob [.replaced k source (.error halt)] (.error halt)
  | unreported (source : Source) (halt : Halt) :
      Receives k blob [.replaced k source (.ok ()), .digested k (.error halt)] (.error halt)
  | differing (source : Source) (digests : Digests) (differences : String) :
      Receives k blob [.replaced k source (.ok ()), .digested k (.ok digests)]
        (.error (.fault (.integrity blob differences)))
  | arrived (source : Source) (digests : Digests) :
      Receives k blob [.replaced k source (.ok ()), .digested k (.ok digests)] (.ok ())

theorem Moves.ofBlob {k : Nat} {blob : Identifier} {calls : List Call}
    {outcome : Except Halt Unit} (h : Moves k blob calls outcome) :
    ∀ c ∈ calls, c.isOfBlob := by
  cases h <;> simp [Call.isOfBlob]

theorem PassedOrMoved.ofBlob {k : Nat} {blob : Identifier} {calls : List Call}
    {outcome : Except Halt Unit} (h : PassedOrMoved k blob calls outcome) :
    ∀ c ∈ calls, c.isOfBlob := by
  rcases h with ⟨-, rfl, -⟩ | hmoves
  · simp
  · exact hmoves.ofBlob

theorem Receives.ofBlob {k : Nat} {blob : Identifier} {calls : List Call}
    {outcome : Except Halt Unit} (h : Receives k blob calls outcome) :
    ∀ c ∈ calls, c.isOfBlob := by
  cases h <;> simp [Call.isOfBlob]

/-! #### The actions on one blob -/

theorem notes_inspectDisk (f : Disk → Except Artifact.Fault α) :
    Notes n (inspectDisk (F := F × History) f) fun calls r =>
      calls = [] ∧ ∀ halt, r = .error halt → ∃ fault, halt = .fault (.artifact fault) := by
  intro w
  rw [inspectDisk_eq]
  refine ⟨[], (List.append_nil _).symm, rfl, ?_⟩
  intro halt hhalt
  cases hf : f w.disk with
  | error fault =>
    simp only [hf] at hhalt
    cases hhalt
    exact ⟨fault, rfl⟩
  | ok value =>
    simp only [hf] at hhalt
    cases hhalt

theorem notes_changeDisk (f : Disk → Except Artifact.Fault (α × Disk)) :
    Notes n (changeDisk (F := F × History) f) fun calls r =>
      calls = [] ∧ ∀ halt, r = .error halt → ∃ fault, halt = .fault (.artifact fault) := by
  intro w
  unfold changeDisk
  cases f w.disk with
  | error fault =>
    refine ⟨[], (List.append_nil _).symm, rfl, ?_⟩
    intro halt hhalt
    exact ⟨fault, (Except.error.inj hhalt).symm⟩
  | ok changed => exact ⟨[], (List.append_nil _).symm, rfl, nofun⟩

theorem notes_store (b : Blob (World F)) (k : Nat) (file : Disk.WriteHandle) :
    Notes n (store (b.observed n k) file) fun calls r => ∃ bytes, calls = [.fetched k bytes r] := by
  intro w
  exact ⟨[.fetched k _ _], rfl, _, rfl⟩

/-- Nothing is called for a claim, and only a shared blob is not taken. -/
theorem notes_taking (blob : Identifier) :
    Notes n (taking (F := F × History) blob) fun calls r =>
      calls = [] ∧ (r = .ok true ∨ r = .ok false ∧ blob.isNamed = true) := by
  intro w
  rcases taking_run blob w with ⟨hnamed, -, hrun⟩ | ⟨w₁, hrun, -, -, hfleet, -⟩
  · rw [hrun]
    exact ⟨[], (List.append_nil _).symm, rfl, .inr ⟨rfl, hnamed⟩⟩
  · rw [hrun]
    have hhistory : w₁.history = w.history := congrArg Prod.snd hfleet
    exact ⟨[], by rw [hhistory, List.map_nil, List.append_nil], rfl, .inl rfl⟩

theorem notes_transfer (a : Artifact) (b : Blob (World F)) (k : Nat) :
    Notes n (transfer a (b.observed n k)) (Moves k b.id) := by
  -- To ask for the size ends the transfer with a panic only.
  have hsize : Notes n (b.observed n k).size.attempt fun calls r => ∃ size,
      calls = [.sized k size] ∧
        ∀ halt, r = .error halt → ∃ payload, size = .error (.panic payload) ∧
          halt = .panic payload := by
    refine (notes_observed b.size (.sized k)).attempt.mono ?_
    rintro calls r ⟨size, rfl, rfl⟩
    refine ⟨size, rfl, ?_⟩
    intro halt hhalt
    rcases size with (cause | payload) | answer <;> cases hhalt
    exact ⟨payload, rfl, rfl⟩
  have hdigests : Notes n (b.observed n k).digests fun calls r => calls = [.digested k r] :=
    notes_observed b.digests (.digested k)
  -- Behind the report there are no more calls: the digests differ, or they are recorded.
  have hlast (stored remote : Digests) :
      Notes n (if stored.agrees remote then
          changeDisk fun disk => (a.addDigests b.id stored disk).map ((), ·)
        else Act.fail (.integrity b.id (", ".intercalate (remote.differences stored))) :
          Act (World (F × History)) Unit) fun calls r =>
        calls = [] ∧ ∀ halt, r = .error halt → (∃ fault, halt = .fault (.artifact fault)) ∨
          ∃ text, halt = .fault (.integrity b.id text) := by
    split
    · exact (notes_changeDisk _).mono fun _ _ h => ⟨h.1, fun halt hhalt => .inl (h.2 halt hhalt)⟩
    · refine (notes_fail _).mono ?_
      rintro calls r ⟨rfl, rfl⟩
      exact ⟨rfl, fun halt hhalt => .inr ⟨_, (Except.error.inj hhalt).symm⟩⟩
  refine (hsize.bind fun _ => (notes_changeDisk _).bind fun file =>
    (notes_store b k file).bind fun _ => (notes_inspectDisk _).bind fun stored =>
      hdigests.bind fun remote => hlast stored remote).mono ?_
  rintro calls r (⟨halt, ⟨size, rfl, hhalt⟩, rfl⟩ | ⟨-, -, rest, ⟨size, rfl, -⟩, h, rfl⟩)
  · obtain ⟨payload, rfl, rfl⟩ := hhalt halt rfl
    exact .panicked payload
  obtain ⟨halt, ⟨rfl, hhalt⟩, rfl⟩ | ⟨-, -, rest, ⟨rfl, -⟩, h, rfl⟩ := h
  · obtain ⟨fault, rfl⟩ := hhalt halt rfl
    exact .unopened size fault
  obtain ⟨halt, ⟨bytes, rfl⟩, rfl⟩ | ⟨-, -, rest, ⟨bytes, rfl⟩, h, rfl⟩ := h
  · exact .unstreamed size bytes halt
  obtain ⟨halt, ⟨rfl, hhalt⟩, rfl⟩ | ⟨-, -, rest, ⟨rfl, -⟩, h, rfl⟩ := h
  · obtain ⟨fault, rfl⟩ := hhalt halt rfl
    exact .unread size bytes fault
  obtain ⟨halt, rfl, rfl⟩ | ⟨remote, -, -, rfl, ⟨rfl, hhalt⟩, rfl⟩ := h
  · exact .unreported size bytes halt
  cases r with
  | error halt =>
    obtain ⟨fault, rfl⟩ | ⟨text, rfl⟩ := hhalt halt rfl
    · exact .refused size bytes remote fault
    · exact .differing size bytes remote text
  | ok _ => exact .confirmed size bytes remote

theorem notes_passedOrMoved (a : Artifact) (b : Blob (World F)) (k : Nat) :
    Notes n (taking b.id >>= fun taken => if taken then transfer a (b.observed n k) else pure ())
      (PassedOrMoved k b.id) := by
  have hbranch (taken : Bool) :
      Notes n (if taken then transfer a (b.observed n k) else pure ()) fun calls r =>
        taken = false ∧ calls = [] ∧ r = .ok () ∨ Moves k b.id calls r := by
    cases taken with
    | false => exact (notes_pure ()).mono fun calls r h => .inl ⟨rfl, h⟩
    | true => exact (notes_transfer a b k).mono fun calls r h => .inr h
  refine ((notes_taking b.id).bind hbranch).mono ?_
  rintro calls r (⟨halt, ⟨-, htaken⟩, -⟩ | ⟨taken, -, rest, ⟨rfl, htaken⟩, h, rfl⟩)
  · simp at htaken
  · rcases h with ⟨rfl, rfl, rfl⟩ | hmoves
    · exact .inl ⟨by simpa using htaken, rfl, rfl⟩
    · exact .inr hmoves

theorem notes_upload (a : Artifact) (b : Blob (World F)) (k : Nat) :
    Notes n (upload a (b.observed n k)) (Receives k b.id) := by
  have hreplace (source : Source) :
      Notes n ((b.observed n k).replace source) fun calls r => calls = [.replaced k source r] :=
    notes_observed (b.replace source) (.replaced k source)
  have hdigests : Notes n (b.observed n k).digests fun calls r => calls = [.digested k r] :=
    notes_observed b.digests (.digested k)
  have hlast (remote expected : Digests) :
      Notes n (if remote.agrees expected then pure ()
        else Act.fail (.integrity b.id (", ".intercalate (expected.differences remote))) :
          Act (World (F × History)) Unit) fun calls r =>
        calls = [] ∧ (r = .ok () ∨ ∃ text, r = .error (.fault (.integrity b.id text))) := by
    split
    · exact (notes_pure ()).mono fun _ _ h => ⟨h.1, .inl h.2⟩
    · exact (notes_fail _).mono fun _ _ h => ⟨h.1, .inr ⟨_, h.2⟩⟩
  -- What is done with a blob that is recorded.
  have hrecorded (expected : Digests) := (notes_inspectDisk (n := n) (a.openFile b.id)).bind
    fun source => (hreplace source).bind fun _ => hdigests.bind fun remote => hlast remote expected
  unfold upload
  refine ((notes_inspectDisk _).bind (Q := fun _ => Receives k b.id) fun recorded => ?_).mono ?_
  · cases recorded with
    | none =>
      refine (notes_fail _).mono ?_
      rintro calls r ⟨rfl, rfl⟩
      exact .unrecorded
    | some expected =>
      refine (hrecorded expected).mono ?_
      rintro calls r (⟨halt, ⟨rfl, hfault⟩, rfl⟩ | ⟨source, -, rest, ⟨rfl, -⟩, h, rfl⟩)
      · obtain ⟨fault, rfl⟩ := hfault halt rfl
        exact .unopened fault
      obtain ⟨halt, rfl, rfl⟩ | ⟨-, -, rest, rfl, h, rfl⟩ := h
      · exact .unreceived source halt
      obtain ⟨halt, rfl, rfl⟩ | ⟨remote, -, -, rfl, ⟨rfl, rfl | ⟨text, rfl⟩⟩, rfl⟩ := h
      · exact .unreported source halt
      · exact .arrived source remote
      · exact .differing source remote text
  · rintro calls r (⟨halt, ⟨rfl, hfault⟩, rfl⟩ | ⟨-, -, rest, ⟨rfl, -⟩, h, rfl⟩)
    · obtain ⟨fault, rfl⟩ := hfault halt rfl
      exact .unopened fault
    · exact h

/-! ### A list of blobs -/

/-- A list of blobs is worked off, the first one of them at position `k`: one blob behind the
    other, up to the first one that halts, and to the end of the list when there is none. -/
inductive WorksOff (One : Nat → Identifier → List Call → Except Halt Unit → Prop) :
    (k : Nat) → List Identifier → List Call → Except Halt Unit → Prop
  | done (k : Nat) : WorksOff One k [] [] (.ok ())
  | next {k : Nat} {blob : Identifier} {ids : List Identifier} {first rest : List Call}
      {outcome : Except Halt Unit} (went : One k blob first (.ok ()))
      (others : WorksOff One (k + 1) ids rest outcome) :
      WorksOff One k (blob :: ids) (first ++ rest) outcome
  | stopped {k : Nat} {blob : Identifier} {calls : List Call} {halt : Halt}
      (ids : List Identifier) (failed : One k blob calls (.error halt)) :
      WorksOff One k (blob :: ids) calls (.error halt)

section WorksOff

variable {One : Nat → Identifier → List Call → Except Halt Unit → Prop} {k : Nat}
  {ids : List Identifier}

/-- What is true of the calls of each blob is true of all calls. -/
theorem WorksOff.all {P : Call → Prop} {calls : List Call} {outcome : Except Halt Unit}
    (h : WorksOff One k ids calls outcome)
    (hone : ∀ k blob calls outcome, One k blob calls outcome → ∀ c ∈ calls, P c) :
    ∀ c ∈ calls, P c := by
  induction h with
  | done k => simp
  | next went others ih =>
    intro c hc
    rcases List.mem_append.mp hc with hc | hc
    · exact hone _ _ _ _ went c hc
    · exact ih c hc
  | stopped ids failed => exact hone _ _ _ _ failed

theorem notes_worksOff_cons {blob : Identifier} {x y : Act (World (F × History)) Unit}
    (hx : Notes n x (One k blob)) (hy : Notes n y (WorksOff One (k + 1) ids)) :
    Notes n (x >>= fun _ => y) (WorksOff One k (blob :: ids)) := by
  refine (hx.bind fun _ => hy).mono ?_
  rintro calls r (⟨halt, hfailed, rfl⟩ | ⟨⟨⟩, first, rest, hwent, hothers, rfl⟩)
  · exact .stopped ids hfailed
  · exact .next hwent hothers

/-- The blobs of an instance in a backup, by induction on the blobs. -/
theorem notes_transferAll (a : Artifact) (k : Nat) (bs : List (Blob (World F))) :
    Notes n (transferAll a (observedBlobs n k bs)) (WorksOff PassedOrMoved k (bs.map (·.id))) := by
  induction bs generalizing k with
  | nil =>
    refine (notes_pure ()).mono ?_
    rintro calls r ⟨rfl, rfl⟩
    exact .done k
  | cons b rest ih =>
    rw [observedBlobs, transferAll_cons, ← Act.bind_assoc]
    exact notes_worksOff_cons (notes_passedOrMoved a b k) (ih (k + 1))

/-- The blobs of an instance in a restore, by induction on the blobs. -/
theorem notes_uploadAll (a : Artifact) (k : Nat) (bs : List (Blob (World F))) :
    Notes n (uploadAll a (observedBlobs n k bs)) (WorksOff Receives k (bs.map (·.id))) := by
  induction bs generalizing k with
  | nil =>
    refine (notes_pure ()).mono ?_
    rintro calls r ⟨rfl, rfl⟩
    exact .done k
  | cons b rest ih =>
    rw [observedBlobs, uploadAll]
    exact notes_worksOff_cons (notes_upload a b k) (ih (k + 1))

end WorksOff

/-- The list of blobs is noted with their identifiers, and then what is done with it. -/
theorem notes_listed (i : Instance (World F))
    {y : List (Blob (World (F × History))) → Act (World (F × History)) β}
    {Q : List Identifier → List Call → Except Halt β → Prop}
    (h : ∀ bs, Notes n (y (observedBlobs n 0 bs)) (Q (bs.map (·.id)))) :
    Notes n ((i.observed n).blobs >>= y) fun calls r =>
      (∃ halt, calls = [.listed (.error halt)] ∧ r = .error halt) ∨
        ∃ ids rest, calls = .listed (.ok ids) :: rest ∧ Q ids rest r := by
  intro w
  rw [bind_apply]
  have hvalue : ((i.observed n).blobs w).1 = (i.blobs w.seen).1.map (observedBlobs n 0) := rfl
  have hnoted : ((i.observed n).blobs w).2.history =
    w.history ++ [⟨n, .listed ((i.blobs w.seen).1.map fun bs => bs.map (·.id))⟩] := rfl
  generalize (i.observed n).blobs w = listed at hvalue hnoted
  obtain ⟨result, after⟩ := listed
  rcases hblobs : (i.blobs w.seen).1 with halt | bs
  · rw [hblobs] at hvalue hnoted
    obtain rfl : result = .error halt := hvalue
    exact ⟨[.listed (.error halt)], hnoted, .inl ⟨halt, rfl, rfl⟩⟩
  · rw [hblobs] at hvalue hnoted
    obtain rfl : result = .ok (observedBlobs n 0 bs) := hvalue
    obtain ⟨rest, hrest, hQ⟩ := h bs after
    refine ⟨.listed (.ok (bs.map (·.id))) :: rest, ?_, .inr ⟨_, rest, rfl, hQ⟩⟩
    rw [hrest, hnoted, List.append_assoc]
    rfl

end Workflow

end DeploymentBackup
