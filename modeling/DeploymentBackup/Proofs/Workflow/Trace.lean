import DeploymentBackup.Proofs.Workflow.Transfer

namespace DeploymentBackup

open Text Artifact Workflow

/-!
# Blobs in a history

* `History.Holds` — an instance listed a blob.
* `History.Touched`, `History.Spoiled` — a blob was called, and its transfer went wrong.
* `History.Once`, `History.Apart` — no blob can be mistaken for another one.
* `Holds.of_append`, `Touched.of_append`, `Spoiled.of_append` — what more calls do not change.
-/

namespace History

/-- An instance listed a blob at a place of its list. -/
def Holds (h : History) (n k : Nat) (blob : Identifier) : Prop :=
  ∃ ids, ⟨n, .listed (.ok ids)⟩ ∈ h ∧ ids[k]? = some blob

/-- The blob at a place was called. -/
def Touched (h : History) (n k : Nat) : Prop :=
  ∃ call, isAt k call ∧ ⟨n, call⟩ ∈ h

/-- The transfer of the blob at a place went wrong: its stream failed, what it streamed is no
    archive, its digests were not reported, or they are not those of what it streamed. -/
def Spoiled (h : History) (n k : Nat) : Prop :=
  (∃ bytes halt, ⟨n, .fetched k bytes (.error halt)⟩ ∈ h) ∨
  (∃ bytes outcome fault, ⟨n, .fetched k bytes outcome⟩ ∈ h ∧
    Digests.ofArchive bytes = .error fault) ∨
  (∃ halt, ⟨n, .digested k (.error halt)⟩ ∈ h) ∨
  ∃ bytes outcome stored remote, ⟨n, .fetched k bytes outcome⟩ ∈ h ∧
    Digests.ofArchive bytes = .ok stored ∧ ⟨n, .digested k (.ok remote)⟩ ∈ h ∧ stored ≠ remote

/-- No blob of an instance is held twice. -/
def Once (h : History) : Prop :=
  ∀ n k n' k' blob, h.Holds n k blob → h.Holds n' k' blob → blob.isNamed = false →
    n = n' ∧ k = k'

/-- Different blobs have files of different names. -/
def Apart (h : History) : Prop :=
  ∀ n k n' k' blob blob', h.Holds n k blob → h.Holds n' k' blob' →
    blob.fileName = blob'.fileName → blob = blob'

variable {h h' : History} {n k n' k' : Nat} {blob : Identifier}

theorem Holds.mono (hholds : h.Holds n k blob) (hsub : h ⊆ h') : Holds h' n k blob := by
  obtain ⟨ids, hlisted, hid⟩ := hholds
  exact ⟨ids, hsub hlisted, hid⟩

theorem Once.mono (honce : Once h') (hsub : h ⊆ h') : Once h := by
  intro n k n' k' blob hholds hholds'
  exact honce n k n' k' blob (hholds.mono hsub) (hholds'.mono hsub)

theorem Apart.mono (hapart : Apart h') (hsub : h ⊆ h') : Apart h := by
  intro n k n' k' blob blob' hholds hholds'
  exact hapart n k n' k' blob blob' (hholds.mono hsub) (hholds'.mono hsub)

theorem Spoiled.touched (hspoiled : h.Spoiled n k) : h.Touched n k := by
  rcases hspoiled with ⟨bytes, halt, hmem⟩ | ⟨bytes, outcome, fault, hmem, -⟩ | ⟨halt, hmem⟩ |
    ⟨bytes, outcome, stored, remote, hmem, -⟩
  · exact ⟨.fetched k bytes (.error halt), rfl, hmem⟩
  · exact ⟨.fetched k bytes outcome, rfl, hmem⟩
  · exact ⟨.digested k (.error halt), rfl, hmem⟩
  · exact ⟨.fetched k bytes outcome, rfl, hmem⟩

/-! ### More calls -/

/-- A call that neither lists blobs nor calls one. -/
def movesNothing : Call → Prop
  | .asked .. | .acted .. | .listed (.error _) => True
  | .listed (.ok _) | .sized .. | .digested .. | .fetched .. | .replaced .. => False

/-- The new calls list no blobs of this instance. -/
theorem Holds.of_append {events : History} (hholds : (h ++ events).Holds n k blob)
    (hnone : ∀ e ∈ events, e.member = n → ∀ ids, e.call ≠ .listed (.ok ids)) :
    h.Holds n k blob := by
  obtain ⟨ids, hlisted, hid⟩ := hholds
  rcases List.mem_append.mp hlisted with hlisted | hlisted
  · exact ⟨ids, hlisted, hid⟩
  · exact absurd rfl (hnone _ hlisted rfl ids)

/-- The new calls are not calls of the blob at this place. -/
theorem Touched.of_append {events : History} (htouched : (h ++ events).Touched n k)
    (hnone : ∀ e ∈ events, e.member = n → ¬ isAt k e.call) : h.Touched n k := by
  obtain ⟨call, hat, hmem⟩ := htouched
  rcases List.mem_append.mp hmem with hmem | hmem
  · exact ⟨call, hat, hmem⟩
  · exact absurd hat (hnone _ hmem rfl)

theorem Spoiled.of_append {events : History} (hspoiled : (h ++ events).Spoiled n k)
    (hnone : ∀ e ∈ events, e.member = n → ¬ isAt k e.call) : h.Spoiled n k := by
  have hold {call : Call} (hat : isAt k call) (hmem : ⟨n, call⟩ ∈ h ++ events) : ⟨n, call⟩ ∈ h := by
    rcases List.mem_append.mp hmem with hmem | hmem
    · exact hmem
    · exact absurd hat (hnone _ hmem rfl)
  rcases hspoiled with ⟨bytes, halt, hmem⟩ | ⟨bytes, outcome, fault, hmem, hlocal⟩ | ⟨halt, hmem⟩ |
    ⟨bytes, outcome, stored, remote, hmem, hlocal, hmem', hne⟩
  · exact .inl ⟨bytes, halt, hold rfl hmem⟩
  · exact .inr (.inl ⟨bytes, outcome, fault, hold rfl hmem, hlocal⟩)
  · exact .inr (.inr (.inl ⟨halt, hold rfl hmem⟩))
  · exact .inr (.inr (.inr ⟨bytes, outcome, stored, remote, hold rfl hmem, hlocal, hold rfl hmem',
      hne⟩))

end History

end DeploymentBackup
