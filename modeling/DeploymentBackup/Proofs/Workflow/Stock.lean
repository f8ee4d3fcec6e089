import DeploymentBackup.Proofs.Workflow.Faithful
import DeploymentBackup.Proofs.Workflow.Integrity

namespace DeploymentBackup.Workflow

open Text Artifact

/-!
# The stock of a completed backup

A backup of a faithful deployment that is completed has stored every blob: what its first
holder streamed. No instance holds the own blob of another one, because it could not have been
recorded twice.

* `Origin` — where what is recorded comes from.
* `Stock` — what there is of the blobs of a deployment.
* `stock_of_completed` — a completed backup leaves a stock.
-/

variable {F ε : Type}

/-- The archive of a recorded blob holds what the first one of its holders streamed. -/
structure Origin (a : Artifact) (held : Nat → List Identifier) (contents : Contents) (h : History)
    (disk : Disk) (n k : Nat) (e : Identifier × Digests) : Prop where
  here : (held n)[k]? = some e.1
  first : ∀ n' k', (held n')[k']? = some e.1 → ¬ Earlier n' k' n k
  fetched : ⟨n, .fetched k (contents n k) (.ok ())⟩ ∈ h
  admits : Admits e.1
  keeps : a.Keeps e.1 (contents n k) disk
  stored : Digests.ofArchive (contents n k) = .ok e.2

/-- The artifact has a record of every blob that is held, and the archives that go with it. -/
structure Stock (a : Artifact) (m : Metadata) (held : Nat → List Identifier) (contents : Contents)
    (h : History) (disk : Disk) : Prop where
  backed : Backed a m disk
  covers : ∀ (n k : Nat) (blob : Identifier), (held n)[k]? = some blob → blob ∈ m.ids
  origins : ∀ e ∈ m.recorded, ∃ n k, Origin a held contents h disk n k e
  single : ∀ (n k n' k' : Nat) (blob : Identifier), (held n)[k]? = some blob →
    (held n')[k']? = some blob → blob.isNamed = false → n = n' ∧ k = k'

section

variable {d : Deployment F ε} {policy : Policy} {path : String} {start finish : Instant}
  {w : World F} {is : List (Instance F)} {manifest : String} {a : Artifact} {disk : Disk}
  {report : Report} {held : Nat → List Identifier} {streams holds : F → Contents}

/-- In a completed backup every instance that holds a blob listed what it holds. -/
theorem listed_of_held (hfaithful : Faithful streams holds held is)
    (hinstances : d.instances w.fleet = .ok is) (hmanifest : d.manifest w.fleet = .ok manifest)
    (hprepare : prepare path manifest start w.disk = (.ok a, disk))
    (hcompleted : (backup d.inFleet policy path start finish w).1 = .ok report) {n : Nat}
    (hheld : held n ≠ []) :
    ⟨n, .listed (.ok (held n))⟩ ∈ backupHistory d.inFleet policy path start finish w := by
  have htrue := history_truthful policy finish hfaithful hinstances hmanifest hprepare
  have hasked := asked_of_held hfaithful hinstances hmanifest hprepare hcompleted hheld
  obtain ⟨ids, hlisted⟩ := listed_of_asked hinstances hmanifest hprepare hcompleted hasked
  have hids : Except.ok ids = .ok (held n) := htrue _ hlisted
  rw [← Except.ok.inj hids]
  exact hlisted

/-- A completed backup of a faithful deployment leaves a stock of all its blobs. -/
theorem stock_of_completed (hfaithful : Faithful streams holds held is)
    (hinstances : d.instances w.fleet = .ok is) (hmanifest : d.manifest w.fleet = .ok manifest)
    (hprepare : prepare path manifest start w.disk = (.ok a, disk)) (hlinks : a.HoldsNoLink disk)
    (hcompleted : (backup d.inFleet policy path start finish w).1 = .ok report) :
    ∃ m, Stock a m held (streams w.fleet) (backupHistory d.inFleet policy path start finish w)
      (backup d.inFleet policy path start finish w).2.disk := by
  obtain ⟨m, n, hbacked, htraced⟩ := traced_backup hinstances hmanifest hprepare hlinks
  have hdisk : (backup d.inFleet.observed policy path start finish (w.noting [])).2.disk =
      (backup d.inFleet policy path start finish w).2.disk := by
    rw [← (backup_observed d.inFleet policy path start finish w).2, World.disk_seen]
  have htrue := history_truthful policy finish hfaithful hinstances hmanifest hprepare
  have hclean : ∃ report, (backup d.inFleet policy path start finish w).1 = .ok report :=
    ⟨report, hcompleted⟩
  -- What is held was listed, in front of the end of the run.
  have hholds {n' k' : Nat} {blob : Identifier} (h : (held n')[k']? = some blob) :
      History.Holds (backupHistory d.inFleet policy path start finish w) n' k' blob := by
    have hne : held n' ≠ [] := by
      intro hnil
      rw [hnil] at h
      cases h
    exact ⟨held n', listed_of_held hfaithful hinstances hmanifest hprepare hcompleted hne, h⟩
  have hfront {n' k' : Nat} {blob : Identifier} (h : (held n')[k']? = some blob) :
      Earlier n' k' n 0 := by
    obtain ⟨ids, hlisted, -⟩ := hholds h
    rcases htraced.listings n' ids hlisted with hlt | ⟨-, hnone⟩
    · exact .inl hlt
    · cases hnone
  have hapart := apart_of_truthful htrue hfaithful
  refine ⟨m, hbacked, ?_, ?_, ?_⟩
  · intro n' k' blob h
    exact htraced.covered hclean n' k' blob (hholds h) (hfront h)
  · intro e he
    obtain ⟨n', k', bytes, hearned, hfirst⟩ := htraced.earned hapart (.inl hclean) e he
    rw [hdisk] at hearned
    obtain ⟨hbytes, -⟩ : bytes = streams w.fleet n' k' ∧ _ := htrue _ hearned.fetched
    subst hbytes
    refine ⟨n', k', held_of_holds htrue hearned.holds, ?_, hearned.fetched, hearned.admits,
      hearned.keeps, hearned.stored⟩
    intro n'' k'' h
    exact hfirst hclean n'' k'' (hholds h)
  · intro n₁ k₁ n₂ k₂ blob h₁ h₂ hnamed
    exact htraced.single hclean n₁ k₁ n₂ k₂ blob (hholds h₁) (hholds h₂) hnamed (hfront h₁)
      (hfront h₂)

end

end DeploymentBackup.Workflow
