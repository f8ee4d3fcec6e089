import DeploymentBackup.Proofs.Workflow.Invariant

namespace DeploymentBackup.Workflow

open Text Artifact

/-!
# The visits of a backup

In the data phase of a backup, the blobs of an instance are visited one behind the other. A visit
moves its blob, or it passes over it because it is shared and was visited before. The turn of the
instance goes on behind every visit that did not fail.

* `Visit`, `Visited`, `BacksUp` — a visit, the visits of a list, and the turn that they make up.
* `TakenOnce` — a shared blob is moved by the first of its visits, and by no other.
* `Confirms`, `Records` — what the record says of the visits.
* `Tracked` — the invariant from visit to visit.
* `visit_run`, `visited_run`, `sweep_visits` — one visit, those of an instance, and all of them.
-/

variable {F : Type}

/-! ### Visits -/

/-- A blob that is passed over, or moved with these calls. -/
inductive Visit
  | passed (blob : Identifier)
  | moved (blob : Identifier) (calls : List Call) (outcome : Except Halt Unit)

namespace Visit

def blob : Visit → Identifier
  | passed blob | moved blob _ _ => blob

def calls : Visit → List Call
  | passed _ => []
  | moved _ calls _ => calls

/-- To pass over a blob never fails. -/
def outcome : Visit → Except Halt Unit
  | passed _ => .ok ()
  | moved _ _ outcome => outcome

/-- The blob is moved. -/
def moves (blob : Identifier) : Visit → Bool
  | passed _ => false
  | moved other _ _ => other = blob

/-- A visit of the blob `k`. Only shared blobs are passed over. -/
def Of (k : Nat) : Visit → Prop
  | passed blob => blob.isNamed = true
  | moved blob calls outcome => Moves k blob calls outcome

end Visit

/-- The visits of a list of blobs, the first of which is the blob `k`, up to the first visit that
    fails, and to the end of the list when there is none. -/
inductive Visited : (k : Nat) → List Identifier → List Visit → Except Halt Unit → Prop
  | done (k : Nat) : Visited k [] [] (.ok ())
  | next {k : Nat} {ids : List Identifier} {v : Visit} {visits : List Visit}
      {outcome : Except Halt Unit} (of : v.Of k) (went : v.outcome = .ok ())
      (rest : Visited (k + 1) ids visits outcome) :
      Visited k (v.blob :: ids) (v :: visits) outcome
  | stopped {k : Nat} {v : Visit} {halt : Halt} (ids : List Identifier) (of : v.Of k)
      (failed : v.outcome = .error halt) : Visited k (v.blob :: ids) [v] (.error halt)

/-- What an instance is called for in the data phase, and how that ends. Its blobs are visited
    when its own action and the list of its blobs have succeeded. -/
inductive BacksUp : List Call → Except Halt Unit → List Visit → Prop
  | refused (halt : Halt) : BacksUp [.acted .backup (.error halt)] (.error halt) []
  | unlisted (halt : Halt) :
      BacksUp [.acted .backup (.ok ()), .listed (.error halt)] (.error halt) []
  | visited {ids : List Identifier} {visits : List Visit} {outcome : Except Halt Unit}
      (visited : Visited 0 ids visits outcome) :
      BacksUp (.acted .backup (.ok ()) :: .listed (.ok ids) :: visits.flatMap (·.calls)) outcome
        visits

/-- The visits of a turn. There are none when the instance is not capable of a backup. -/
def VisitsOf (t : Turn) (visits : List Visit) : Prop :=
  match t.answer with
  | .ok true => BacksUp t.calls t.outcome visits
  | _ => visits = []

/-! #### The calls of visits -/

theorem Visit.Of.passedOrMoved {k : Nat} {v : Visit} (h : v.Of k) :
    PassedOrMoved k v.blob v.calls v.outcome := by
  cases v with
  | passed blob => exact .inl ⟨h, rfl, rfl⟩
  | moved blob calls outcome => exact .inr h

/-- The calls of visits are those of a list of blobs that is worked off. -/
theorem Visited.worksOff {k : Nat} {ids : List Identifier} {visits : List Visit}
    {outcome : Except Halt Unit} (h : Visited k ids visits outcome) :
    WorksOff PassedOrMoved k ids (visits.flatMap (·.calls)) outcome := by
  induction h with
  | done k => exact .done k
  | next of went rest ih => exact .next (went ▸ of.passedOrMoved) ih
  | @stopped k v halt ids of failed =>
    rw [List.flatMap_singleton]
    exact .stopped ids (failed ▸ of.passedOrMoved)

theorem Visited.shape {k : Nat} {ids : List Identifier} {visits : List Visit}
    {outcome : Except Halt Unit} (h : Visited k ids visits outcome) :
    ∀ v ∈ visits, ∃ k, v.Of k := by
  induction h with
  | done k => simp
  | @next k ids v visits outcome of went rest ih => simpa using ⟨⟨k, of⟩, ih⟩
  | @stopped k v halt ids of failed => simpa using ⟨k, of⟩

/-- The calls of a turn are those of the data phase. -/
theorem BacksUp.operated {calls : List Call} {outcome : Except Halt Unit} {visits : List Visit}
    (h : BacksUp calls outcome visits) : Phase.backup.Operated calls outcome := by
  cases h with
  | refused halt => exact .inl ⟨halt, rfl, rfl⟩
  | unlisted halt => exact .inr (.inl ⟨halt, rfl, rfl⟩)
  | @visited ids visits outcome visited => exact .inr (.inr ⟨ids, _, rfl, visited.worksOff⟩)

theorem VisitsOf.shape {t : Turn} {visits : List Visit} (h : VisitsOf t visits) :
    ∀ v ∈ visits, ∃ k, v.Of k := by
  unfold VisitsOf at h
  split at h
  · generalize t.calls = calls, t.outcome = outcome at h
    cases h with
    | refused halt => simp
    | unlisted halt => simp
    | visited visited => exact visited.shape
  · simp [h]

/-! ### Shared blobs -/

/-- The shared blob is moved by the first of its visits, and passed over by all others. -/
def TakenOnce (shared : Identifier) (visits : List Visit) : Prop :=
  (∀ v ∈ visits, v.blob ≠ shared) ∨
    ∃ front calls outcome rest, visits = front ++ .moved shared calls outcome :: rest ∧
      (∀ v ∈ front, v.blob ≠ shared) ∧ ∀ v ∈ rest, v.blob = shared → v = .passed shared

section TakenOnce

variable {shared : Identifier} {visits : List Visit}

theorem TakenOnce.append_elsewhere (h : TakenOnce shared visits) {v : Visit}
    (hv : v.blob ≠ shared) : TakenOnce shared (visits ++ [v]) := by
  rcases h with hnever | ⟨front, calls, outcome, rest, rfl, hfront, hrest⟩
  · exact .inl (by simpa [or_imp, forall_and] using ⟨hnever, hv⟩)
  · refine .inr ⟨front, calls, outcome, rest ++ [v], by simp, hfront, ?_⟩
    intro u hu hshared
    rcases List.mem_append.mp hu with hu | hu
    · exact hrest u hu hshared
    · rw [List.mem_singleton.mp hu] at hshared
      exact absurd hshared hv

/-- A blob that was visited is passed over from then on. -/
theorem TakenOnce.append_passed (h : TakenOnce shared visits)
    (hvisited : ∃ v ∈ visits, v.blob = shared) :
    TakenOnce shared (visits ++ [.passed shared]) := by
  rcases h with hnever | ⟨front, calls, outcome, rest, rfl, hfront, hrest⟩
  · obtain ⟨v, hv, hshared⟩ := hvisited
    exact absurd hshared (hnever v hv)
  · refine .inr ⟨front, calls, outcome, rest ++ [.passed shared], by simp, hfront, ?_⟩
    intro u hu hshared
    rcases List.mem_append.mp hu with hu | hu
    · exact hrest u hu hshared
    · exact List.mem_singleton.mp hu

theorem takenOnce_append_moved (hnever : ∀ v ∈ visits, v.blob ≠ shared) (calls : List Call)
    (outcome : Except Halt Unit) : TakenOnce shared (visits ++ [.moved shared calls outcome]) :=
  .inr ⟨visits, calls, outcome, [], rfl, hnever, by simp⟩

/-- Of all visits, one at most moves a shared blob. -/
theorem TakenOnce.moves_le_one (h : TakenOnce shared visits) :
    visits.countP (·.moves shared) ≤ 1 := by
  have hmoves {v : Visit} (hv : v.moves shared = true) : v.blob = shared := by
    cases v with
    | passed blob => cases hv
    | moved blob calls outcome => exact of_decide_eq_true hv
  rcases h with hnever | ⟨front, calls, outcome, rest, rfl, hfront, hrest⟩
  · rw [List.countP_eq_zero.mpr fun v hv hc => hnever v hv (hmoves hc)]
    exact Nat.zero_le 1
  · have hnone : rest.countP (·.moves shared) = 0 := by
      refine List.countP_eq_zero.mpr fun v hv hc => ?_
      rw [hrest v hv (hmoves hc)] at hc
      cases hc
    rw [List.countP_append, List.countP_cons, hnone,
      List.countP_eq_zero.mpr fun v hv hc => hfront v hv (hmoves hc)]
    split <;> omega

/-- A call that makes a blob stream. -/
def isFetch : Call → Bool
  | .fetched .. => true
  | _ => false

/-- What a blob is called for in a list of visits. -/
def callsFor (blob : Identifier) (visits : List Visit) : List Call :=
  (visits.filter (·.blob = blob)).flatMap (·.calls)

theorem callsFor_append (blob : Identifier) (visits visits' : List Visit) :
    callsFor blob (visits ++ visits') = callsFor blob visits ++ callsFor blob visits' := by
  unfold callsFor
  rw [List.filter_append, List.flatMap_append]

theorem callsFor_eq_nil {blob : Identifier} (h : ∀ v ∈ visits, v.blob = blob → v.calls = []) :
    callsFor blob visits = [] := by
  unfold callsFor
  rw [List.flatMap_eq_nil_iff]
  intro v hv
  obtain ⟨hv, hblob⟩ := List.mem_filter.mp hv
  exact h v hv (of_decide_eq_true hblob)

theorem Moves.fetches_le_one {k : Nat} {blob : Identifier} {calls : List Call}
    {outcome : Except Halt Unit} (h : Moves k blob calls outcome) :
    calls.countP isFetch ≤ 1 := by
  cases h <;> simp [isFetch, List.countP_cons]

/-- A shared blob streams once at most. -/
theorem TakenOnce.fetches_le_one (h : TakenOnce shared visits)
    (hshape : ∀ v ∈ visits, ∃ k, v.Of k) : (callsFor shared visits).countP isFetch ≤ 1 := by
  rcases h with hnever | ⟨front, calls, outcome, rest, rfl, hfront, hrest⟩
  · rw [callsFor_eq_nil fun v hv hblob => absurd hblob (hnever v hv)]
    exact Nat.zero_le 1
  · obtain ⟨k, hmoves⟩ := hshape (.moved shared calls outcome) (by simp)
    have hpassed : callsFor shared rest = [] :=
      callsFor_eq_nil fun v hv hblob => by rw [hrest v hv hblob]; rfl
    have hmoved : callsFor shared [.moved shared calls outcome] = calls := by
      simp [callsFor, Visit.blob, Visit.calls]
    rw [callsFor_append, callsFor_eq_nil fun v hv hblob => absurd hblob (hfront v hv),
      ← List.singleton_append, callsFor_append, hmoved, hpassed, List.nil_append, List.append_nil]
    exact Moves.fetches_le_one hmoves

/-- Of all turns, one at most moves the shared blob. -/
def MovedInOne (shared : Identifier) (turns : List (List Visit)) : Prop :=
  ∀ (n n' : Nat) (own own' : List Visit), turns[n]? = some own → turns[n']? = some own' →
    own.any (·.moves shared) → own'.any (·.moves shared) → n = n'

theorem TakenOnce.movedInOne {turns : List (List Visit)} (h : TakenOnce shared turns.flatten) :
    MovedInOne shared turns := by
  intro n n' own own' hown hown' hmoves hmoves'
  -- Two turns in which it moves would count as two visits.
  have hcount : turns.flatten.countP (·.moves shared) ≤ 1 := h.moves_le_one
  clear h
  induction turns generalizing n n' with
  | nil => cases hown
  | cons first rest ih =>
    rw [List.flatten_cons, List.countP_append] at hcount
    have hpos {own : List Visit} (hmoves : own.any (·.moves shared)) :
        0 < own.countP (·.moves shared) := by
      simpa [List.countP_pos_iff] using hmoves
    have hlater {j : Nat} {own : List Visit} (hown : rest[j]? = some own)
        (hmoves : own.any (·.moves shared)) : 0 < rest.flatten.countP (·.moves shared) := by
      obtain ⟨v, hv, hmoves⟩ := List.any_eq_true.mp hmoves
      exact List.countP_pos_iff.mpr
        ⟨v, List.mem_flatten.mpr ⟨own, List.mem_of_getElem? hown, hv⟩, hmoves⟩
    cases n with
    | zero =>
      cases n' with
      | zero => rfl
      | succ j' =>
        obtain rfl : first = own := Option.some.inj hown
        have := hpos hmoves
        have := hlater hown' hmoves'
        omega
    | succ j =>
      cases n' with
      | zero =>
        obtain rfl : first = own' := Option.some.inj hown'
        have := hpos hmoves'
        have := hlater hown hmoves
        omega
      | succ j' => rw [ih j j' hown hown' (by omega)]

end TakenOnce

/-! ### The record -/

/-- The blob streamed an archive to its end, and it reported the digests of this archive. -/
def Confirms (calls : List Call) (digests : Digests) : Prop :=
  ∃ k bytes, .fetched k bytes (.ok ()) ∈ calls ∧ Digests.ofArchive bytes = .ok digests ∧
    .digested k (.ok digests) ∈ calls

/-- What is recorded of shared blobs is what their visits have confirmed, and a visit that moves a
    shared blob fails when it confirms nothing. -/
structure Records (visits : List Visit) (m : Metadata) : Prop where
  recorded : ∀ shared digests, shared.isNamed = true →
    ((shared, digests) ∈ m.recorded ↔ ∃ v ∈ visits, v.blob = shared ∧ Confirms v.calls digests)
  outcome : ∀ shared calls outcome, .moved shared calls outcome ∈ visits → shared.isNamed = true →
    (outcome = .ok () ↔ ∃ digests, Confirms calls digests)

theorem not_confirms_nil (digests : Digests) : ¬ Confirms [] digests := by
  rintro ⟨k, bytes, hc, -⟩
  cases hc

section Records

variable {a : Artifact} {m m' : Metadata} {visits : List Visit} {blob : Identifier}

theorem Records.passed (h : Records visits m) (blob : Identifier) :
    Records (visits ++ [.passed blob]) m where
  recorded := by
    intro shared digests hnamed
    rw [h.recorded shared digests hnamed]
    constructor
    · rintro ⟨v, hv, hconfirms⟩
      exact ⟨v, List.mem_append_left _ hv, hconfirms⟩
    · rintro ⟨v, hv, hblob, hconfirms⟩
      rcases List.mem_append.mp hv with hv | hv
      · exact ⟨v, hv, hblob, hconfirms⟩
      · rw [List.mem_singleton.mp hv] at hconfirms
        exact absurd hconfirms (not_confirms_nil digests)
  outcome := by
    intro shared calls outcome hv hnamed
    refine h.outcome shared calls outcome ?_ hnamed
    simpa using hv

/-- How a transfer ends shows in its calls, unless the blob was recorded before. -/
theorem Transfers.records {k : Nat} {disk disk' : Disk} {calls : List Call}
    {outcome : Except Halt Unit} (h : Transfers a k blob disk calls outcome disk')
    (hbacked : Backed a m disk) :
    ∃ m', Backed a m' disk' ∧
      ((m' = m ∧ outcome ≠ .ok () ∧ ∀ digests, Confirms calls digests → blob ∈ m.ids) ∨
        ∃ digests, m.Inserted blob digests m' ∧ outcome = .ok () ∧
          ∀ other, Confirms calls other ↔ other = digests) := by
  have hsound := hbacked.sound
  -- Nothing is recorded when nothing was confirmed.
  have hnothing {bytes : Bytes} {full : Disk} (hfills : Fills a blob bytes disk full) {halt : Halt}
      (hnone : ∀ digests, Confirms calls digests → blob ∈ m.ids) :
      ∃ m', Backed a m' full ∧
        ((m' = m ∧ Except.error halt ≠ .ok () ∧
            ∀ digests, Confirms calls digests → blob ∈ m.ids) ∨
          ∃ digests, m.Inserted blob digests m' ∧ Except.error halt = .ok () ∧
            ∀ other, Confirms calls other ↔ other = digests) :=
    ⟨m, hbacked.stored (hfills.stores hsound).2, .inl ⟨rfl, nofun, hnone⟩⟩
  cases h with
  | panicked payload => exact ⟨m, hbacked, .inl ⟨rfl, nofun, by simp [Confirms]⟩⟩
  | unopened size fault => exact ⟨m, hbacked, .inl ⟨rfl, nofun, by simp [Confirms]⟩⟩
  | unstreamed size halt fills => exact hnothing fills (by simp [Confirms])
  | unread size fills read => exact hnothing fills (by simp [Confirms])
  | unreported size halt fills read => exact hnothing fills (by simp [Confirms])
  | @differing bytes full stored remote size fills read differs =>
    obtain ⟨hlocal, -⟩ := recorded_run hsound hbacked.record fills read
    refine hnothing fills ?_
    rintro digests ⟨j, bytes', hfetched, harchive, hdigested⟩
    simp only [List.mem_cons, reduceCtorEq, List.not_mem_nil, or_false, false_or,
      Call.fetched.injEq, Call.digested.injEq, Except.ok.injEq] at hfetched hdigested
    obtain ⟨-, rfl, -⟩ := hfetched
    rw [hlocal, hdigested.2] at harchive
    exact absurd (Except.ok.inj harchive) differs
  | @refused bytes full digests fault size fills read refused =>
    obtain ⟨-, ⟨m', disk₂, hinsert, hadd, -⟩ | ⟨hnone, -⟩⟩ :=
      recorded_run hsound hbacked.record fills read
    · rw [refused] at hadd
      cases hadd
    · -- Only a blob that is recorded already is refused.
      refine hnothing fills fun _ _ => ?_
      by_contra hfresh
      obtain ⟨m', hsome⟩ := Metadata.insert?_isSome hbacked.proper hfresh digests
      rw [hnone] at hsome
      cases hsome
  | @recorded bytes full disk' digests size fills read added =>
    obtain ⟨hlocal, ⟨m', disk₂, hinsert, hadd, hwrites⟩ | ⟨-, hadd⟩⟩ :=
      recorded_run hsound hbacked.record fills read
    · rw [added] at hadd
      cases hadd
      have hinserted := Metadata.insert?_spec hbacked.proper hinsert
      refine ⟨m', (hbacked.stored (fills.stores hsound).2).recorded hinserted hwrites,
        .inr ⟨digests, hinserted, rfl, fun other => ?_⟩⟩
      constructor
      · rintro ⟨j, bytes', -, -, hdigested⟩
        have hsame : j = k ∧ other = digests := by simpa using hdigested
        exact hsame.2
      · rintro rfl
        exact ⟨k, bytes, by simp, hlocal, by simp⟩
    · rw [added] at hadd
      cases hadd

/-- A blob that was moved is recorded when it was confirmed, and nothing else changes. -/
theorem Records.moved (h : Records visits m) {calls : List Call} {outcome : Except Halt Unit}
    (hfresh : blob.isNamed = true → blob ∉ m.ids)
    (hends : (m' = m ∧ outcome ≠ .ok () ∧ ∀ digests, Confirms calls digests → blob ∈ m.ids) ∨
      ∃ digests, m.Inserted blob digests m' ∧ outcome = .ok () ∧
        ∀ other, Confirms calls other ↔ other = digests) :
    Records (visits ++ [.moved blob calls outcome]) m' := by
  -- What is confirmed behind the last visit is what was confirmed before, or by this visit.
  have hmem (shared : Identifier) (digests : Digests) :
      (∃ v ∈ visits ++ [.moved blob calls outcome], v.blob = shared ∧ Confirms v.calls digests) ↔
        (∃ v ∈ visits, v.blob = shared ∧ Confirms v.calls digests) ∨
          blob = shared ∧ Confirms calls digests := by
    simp only [List.mem_append, List.mem_singleton, or_and_right, exists_or, exists_eq_left]
    rfl
  have hlast {shared : Identifier} {calls' : List Call} {outcome' : Except Halt Unit}
      (hv : .moved shared calls' outcome' ∈ visits ++ [.moved blob calls outcome]) :
      .moved shared calls' outcome' ∈ visits ∨
        shared = blob ∧ calls' = calls ∧ outcome' = outcome := by
    simpa using hv
  rcases hends with ⟨rfl, hfailed, hnone⟩ | ⟨digests, hinserted, rfl, hconfirms⟩
  · -- A shared blob is not recorded yet, so that it would have been recorded.
    have hnone : blob.isNamed = true → ∀ digests, ¬ Confirms calls digests :=
      fun hnamed digests hc => hfresh hnamed (hnone digests hc)
    refine ⟨fun shared digests hnamed => ?_, fun shared calls' outcome' hv hnamed => ?_⟩
    · rw [hmem, h.recorded shared digests hnamed]
      refine ⟨.inl, fun hor => hor.resolve_right ?_⟩
      rintro ⟨rfl, hc⟩
      exact hnone hnamed digests hc
    · rcases hlast hv with hv | ⟨rfl, rfl, rfl⟩
      · exact h.outcome shared calls' outcome' hv hnamed
      · exact iff_of_false hfailed fun ⟨digests, hc⟩ => hnone hnamed digests hc
  · -- The record has one entry more, and this visit confirms the digests of it.
    refine ⟨fun shared other hnamed => ?_, fun shared calls' outcome' hv hnamed => ?_⟩
    · rw [hmem, hinserted.mem_recorded, h.recorded shared other hnamed, hconfirms, or_comm,
        Prod.mk.injEq, eq_comm (a := shared)]
    · rcases hlast hv with hv | ⟨rfl, rfl, rfl⟩
      · exact h.outcome shared calls' outcome' hv hnamed
      · exact iff_of_true rfl ⟨digests, (hconfirms digests).mpr rfl⟩

end Records

/-! ### From visit to visit -/

/-- What is true when the blobs of a run have been visited so far: the shared ones among them are
    claimed, each was taken once, and if the artifact was `clean`, its record tells what the visits
    have confirmed. -/
structure Tracked (clean : Prop) (a : Artifact) (visits : List Visit)
    (w : World (F × History)) : Prop where
  claimed : ∀ shared, shared ∈ w.claimed ↔
    shared.isNamed = true ∧ ∃ v ∈ visits, v.blob = shared
  once : ∀ shared, shared.isNamed = true → TakenOnce shared visits
  recorded : clean → ∃ m, Backed a m w.disk ∧ Records visits m

section Tracked

variable {clean : Prop} {a : Artifact} {n : Nat} {visits : List Visit} {w w' : World (F × History)}

/-- Where nothing is visited, nothing changes. -/
theorem Tracked.beside (h : Tracked clean a visits w) (hdisk : w'.disk = w.disk)
    (hclaimed : w'.claimed = w.claimed) : Tracked clean a visits w' where
  claimed := by
    rw [hclaimed]
    exact h.claimed
  once := h.once
  recorded := by
    rw [hdisk]
    exact h.recorded

theorem Tracked.passed (h : Tracked clean a visits w) {blob : Identifier}
    (hclaimed : blob ∈ w.claimed) : Tracked clean a (visits ++ [.passed blob]) w where
  claimed := by
    intro shared
    rw [h.claimed]
    refine and_congr_right fun _ => ⟨?_, ?_⟩
    · rintro ⟨v, hv, hblob⟩
      exact ⟨v, List.mem_append_left _ hv, hblob⟩
    · rintro ⟨v, hv, rfl⟩
      rcases List.mem_append.mp hv with hv | hv
      · exact ⟨v, hv, rfl⟩
      · rw [List.mem_singleton.mp hv]
        exact ((h.claimed blob).mp hclaimed).2
  once := by
    intro shared hnamed
    by_cases hshared : blob = shared
    · subst hshared
      exact (h.once blob hnamed).append_passed ((h.claimed blob).mp hclaimed).2
    · exact (h.once shared hnamed).append_elsewhere hshared
  recorded := by
    intro hclean
    obtain ⟨m, hbacked, hrecords⟩ := h.recorded hclean
    exact ⟨m, hbacked, hrecords.passed blob⟩

/-- A shared blob that was not visited yet is not recorded yet. -/
theorem Tracked.fresh (h : Tracked clean a visits w) {blob : Identifier}
    (hfree : blob.isNamed = true → blob ∉ w.claimed) {m : Metadata} (hrecords : Records visits m)
    (hnamed : blob.isNamed = true) : blob ∉ m.ids := by
  intro hrecorded
  obtain ⟨⟨_, digests⟩, he, rfl⟩ := List.mem_map.mp hrecorded
  obtain ⟨v, hv, hblob, -⟩ := (hrecords.recorded _ digests hnamed).mp he
  exact hfree hnamed ((h.claimed _).mpr ⟨hnamed, v, hv, hblob⟩)

theorem Tracked.moved (h : Tracked clean a visits w) {blob : Identifier} {k : Nat}
    {calls : List Call} {outcome : Except Halt Unit}
    (hfree : blob.isNamed = true → blob ∉ w.claimed)
    (hclaimed : ∀ other, other ∈ w'.claimed ↔
      other ∈ w.claimed ∨ blob.isNamed = true ∧ other = blob)
    (htransfers : Transfers a k blob w.disk calls outcome w'.disk) :
    Tracked clean a (visits ++ [.moved blob calls outcome]) w' where
  claimed := by
    intro shared
    rw [hclaimed, h.claimed]
    simp only [List.mem_append, List.mem_singleton, or_and_right, exists_or, exists_eq_left,
      Visit.blob]
    constructor
    · rintro (⟨hnamed, hv⟩ | ⟨hnamed, rfl⟩)
      · exact ⟨hnamed, .inl hv⟩
      · exact ⟨hnamed, .inr rfl⟩
    · rintro ⟨hnamed, hv | rfl⟩
      · exact .inl ⟨hnamed, hv⟩
      · exact .inr ⟨hnamed, rfl⟩
  once := by
    intro shared hnamed
    by_cases hshared : blob = shared
    · subst hshared
      refine takenOnce_append_moved (fun v hv hblob => ?_) calls outcome
      exact hfree hnamed ((h.claimed blob).mpr ⟨hnamed, v, hv, hblob⟩)
    · exact (h.once shared hnamed).append_elsewhere hshared
  recorded := by
    intro hclean
    obtain ⟨m, hbacked, hrecords⟩ := h.recorded hclean
    obtain ⟨m', hbacked', hends⟩ := htransfers.records hbacked
    exact ⟨m', hbacked', hrecords.moved (h.fresh hfree hrecords) hends⟩

theorem Transfers.moves {k : Nat} {blob : Identifier} {disk disk' : Disk} {calls : List Call}
    {outcome : Except Halt Unit} (h : Transfers a k blob disk calls outcome disk') :
    Moves k blob calls outcome := by
  cases h with
  | panicked payload => exact .panicked payload
  | unopened size fault => exact .unopened size fault
  | unstreamed size halt fills => exact .unstreamed size _ halt
  | unread size fills read => exact .unread size _ _
  | unreported size halt fills read => exact .unreported size _ halt
  | differing size fills read differs => exact .differing size _ _ _
  | refused size fills read refused => exact .refused size _ _ _
  | recorded size fills read added => exact .confirmed size _ _

/-- One visit. -/
theorem visit_run (h : Tracked clean a visits w) (b : Blob F) (k : Nat) :
    ∃ w' v, v.blob = b.id ∧ v.Of k ∧
      (taking b.id >>= fun taken =>
        if taken then transfer a (b.inFleet.observed n k) else pure ()) w = (v.outcome, w') ∧
      w'.history = w.history ++ v.calls.map (Event.mk n) ∧
      Tracked clean a (visits ++ [v]) w' := by
  rcases taking_run b.id w with ⟨hnamed, hclaimed, htaking⟩ | ⟨w₁, htaking, hfree, hdisk, hfleet,
    hclaimed⟩
  · -- Another instance has taken the blob, so nothing is called.
    refine ⟨w, .passed b.id, rfl, hnamed, ?_, (List.append_nil _).symm, h.passed hclaimed⟩
    rw [bind_of_ok htaking]
    rfl
  · obtain ⟨w', calls, outcome, hrun, hclaimed', hhistory, htransfers⟩ :=
      transfer_run (a := a) (n := n) (k := k) b w₁
    refine ⟨w', .moved b.id calls outcome, rfl, htransfers.moves, ?_, ?_, ?_⟩
    · rw [bind_of_ok htaking]
      exact hrun
    · rw [hhistory, show w₁.history = w.history from congrArg Prod.snd hfleet]
      rfl
    · rw [hdisk] at htransfers
      rw [← hclaimed'] at hclaimed
      exact h.moved hfree hclaimed htransfers

/-- The visits of the blobs of an instance, by induction on the blobs that are left. -/
theorem visited_run (bs : List (Blob F)) (k : Nat) (h : Tracked clean a visits w) :
    ∃ w' own outcome,
      transferAll a (observedBlobs n k (bs.map Blob.inFleet)) w = (outcome, w') ∧
      Visited k (bs.map (·.id)) own outcome ∧
      w'.history = w.history ++ (own.flatMap (·.calls)).map (Event.mk n) ∧
      Tracked clean a (visits ++ own) w' := by
  induction bs generalizing k visits w with
  | nil =>
    refine ⟨w, [], .ok (), rfl, .done k, (List.append_nil _).symm, ?_⟩
    rw [List.append_nil]
    exact h
  | cons b rest ih =>
    rw [List.map_cons, List.map_cons, observedBlobs, transferAll_cons, ← Act.bind_assoc,
      id_observed]
    obtain ⟨w₁, v, hblob, hof, hrun, hhistory₁, h₁⟩ := visit_run (n := n) h b k
    rw [← hblob] at hrun ⊢
    cases houtcome : v.outcome with
    | error halt =>
      rw [houtcome] at hrun
      rw [bind_of_error hrun]
      -- The blobs behind the one that failed are not visited.
      exact ⟨w₁, [v], _, rfl, .stopped _ hof houtcome, by simpa using hhistory₁, h₁⟩
    | ok _ =>
      rw [houtcome] at hrun
      rw [bind_of_ok hrun]
      obtain ⟨w₂, own, outcome, hrest, hvisited, hhistory₂, h₂⟩ := ih (k + 1) h₁
      refine ⟨w₂, v :: own, outcome, hrest, .next hof houtcome hvisited, ?_, ?_⟩
      · rw [hhistory₂, hhistory₁]
        simp
      · rwa [List.append_assoc] at h₂

/-- The data phase of an instance. -/
theorem backsUp_run (i : Instance F) (h : Tracked clean a visits w) :
    ∃ w' calls outcome own, backUp a (i.inFleet.observed n) w = (outcome, w') ∧
      BacksUp calls outcome own ∧ w'.history = w.history ++ calls.map (Event.mk n) ∧
      Tracked clean a (visits ++ own) w' := by
  unfold backUp
  obtain ⟨w₁, acted, hacted, hdisk₁, hclaimed₁, hhistory₁⟩ := acted_run (n := n) i .backup w
  have h₁ := h.beside hdisk₁ hclaimed₁
  cases acted with
  | error halt =>
    rw [bind_of_error hacted]
    refine ⟨w₁, _, _, [], rfl, .refused halt, hhistory₁, ?_⟩
    rwa [List.append_nil]
  | ok _ =>
    rw [bind_of_ok hacted]
    obtain ⟨w₂, hdisk₂, hclaimed₂, ⟨halt, hlisted, hhistory₂⟩ | ⟨bs, hlisted, hhistory₂⟩⟩ :=
      listed_run (n := n) i w₁
    · rw [bind_of_error hlisted]
      refine ⟨w₂, _, _, [], rfl, .unlisted halt, ?_, ?_⟩
      · rw [hhistory₂, hhistory₁, List.append_assoc]
        rfl
      · rw [List.append_nil]
        exact h₁.beside hdisk₂ hclaimed₂
    · rw [bind_of_ok hlisted]
      obtain ⟨w₃, own, outcome, hrun, hvisited, hhistory₃, h₃⟩ :=
        visited_run (n := n) bs 0 (h₁.beside hdisk₂ hclaimed₂)
      refine ⟨w₃, _, outcome, own, hrun, .visited hvisited, ?_, h₃⟩
      rw [hhistory₃, hhistory₂, hhistory₁]
      simp

/-- The turn of an instance. -/
theorem visit_visits (i : Instance F) (h : Tracked clean a visits w) :
    ∃ t own, IsTurn .backup (backUp a) n i.inFleet w t ∧ VisitsOf t own ∧
      Tracked clean a (visits ++ own)
        (Phase.backup.visit (backUp a) (i.inFleet.observed n) w).2 := by
  obtain ⟨t, hturn, ⟨hanswer, hdisk, hclaimed⟩ | ⟨hanswer, own, hbacksUp, h₁⟩⟩ :=
    visit_fleet (n := n) (R := fun calls outcome w' => ∃ own, BacksUp calls outcome own ∧
      Tracked clean a (visits ++ own) w') i w fun w₁ hdisk₁ hclaimed₁ => by
        obtain ⟨w₂, calls, outcome, own, hrun, hbacksUp, hhistory, h₂⟩ :=
          backsUp_run (n := n) i (h.beside hdisk₁ hclaimed₁)
        exact ⟨w₂, calls, outcome, hrun, hhistory, hbacksUp.operated, own, hbacksUp, h₂⟩
  · refine ⟨t, [], hturn, ?_, ?_⟩
    · unfold VisitsOf
      split
      · rename_i hable
        exact absurd hable hanswer
      · rfl
    · rw [List.append_nil]
      exact h.beside hdisk hclaimed
  · refine ⟨t, own, hturn, ?_, h₁⟩
    unfold VisitsOf
    rw [hanswer]
    exact hbacksUp

/-- The turns of all instances. -/
theorem sweep_visits (is : List (Instance F)) (n : Nat) (h : Tracked clean a visits w) :
    SweepsTo (fun turns w' => ∃ own, List.Forall₂ VisitsOf turns own ∧
        Tracked clean a (visits ++ own.flatten) w')
      .backup (backUp a) n (is.map Instance.inFleet) w := by
  refine sweep_to (I := fun turns w' => ∃ own, List.Forall₂ VisitsOf turns own ∧
    Tracked clean a (visits ++ own.flatten) w') (is.map Instance.inFleet) ?_ n ?_
  · rintro i hi n turns w₁ ⟨own, hvisits, h₁⟩
    obtain ⟨j, -, rfl⟩ := List.mem_map.mp hi
    obtain ⟨t, last, hturn, hlast, h₂⟩ := visit_visits (n := n) j h₁
    refine ⟨t, hturn, own ++ [last], List.rel_append hvisits (.cons hlast .nil), ?_⟩
    rwa [List.flatten_concat, ← List.append_assoc]
  · refine ⟨[], .nil, ?_⟩
    rwa [List.flatten_nil, List.append_nil]

end Tracked

end DeploymentBackup.Workflow
