import DeploymentBackup.Proofs.Workflow.Steps

namespace DeploymentBackup

open Text

/-!
# Fleets

The instances of a fleet act on their own world. Whatever they do, the disk and the claims of
a running backup stay as they are.

* `Deployment.inFleet` — a deployment of such instances.
* `World.Beside` — worlds that differ in the fleet alone.
* `Deployment.kept` — a fleet that is nothing but what its blobs hold.
-/

variable {F ε : Type} {α β : Type}

/-- A deployment whose instances act on their own world only. -/
def Deployment.inFleet (d : Deployment F ε) : Deployment (World F) ε where
  instances := fun w => (d.instances w.fleet).map fun is => is.map Instance.inFleet
  manifest := fun w => d.manifest w.fleet

/-- The blob of an instance that acts on its own world only. -/
def Blob.inFleet (b : Blob F) : Blob (World F) :=
  b.within (·.fleet) fun fleet w => { w with fleet := fleet }

theorem inFleet_instances {d : Deployment F ε} {w : World F} {is : List (Instance F)}
    (hinstances : d.instances w.fleet = .ok is) :
    d.inFleet.instances w = .ok (is.map Instance.inFleet) := by
  show (d.instances w.fleet).map _ = _
  rw [hinstances]
  rfl

/-- The worlds differ in the fleet alone. -/
structure World.Beside (w w' : World F) : Prop where
  disk : w'.disk = w.disk
  claimed : w'.claimed = w.claimed

theorem World.Beside.refl (w : World F) : w.Beside w :=
  ⟨rfl, rfl⟩

theorem World.Beside.trans {w w' w'' : World F} (h : w.Beside w') (h' : w'.Beside w'') :
    w.Beside w'' :=
  ⟨h'.disk.trans h.disk, h'.claimed.trans h.claimed⟩

theorem World.keeping_beside : Keeping (World.Beside (F := F)) :=
  ⟨World.Beside.refl, World.Beside.trans⟩

theorem Blob.inFleet_steps (b : Blob F) : b.inFleet.Steps World.Beside where
  size := fun _ => ⟨rfl, rfl⟩
  digests := fun _ => ⟨rfl, rfl⟩
  fetch := fun _ => ⟨rfl, rfl⟩
  replace := fun _ _ => ⟨rfl, rfl⟩

/-- Whatever an instance of a fleet does changes the fleet alone. -/
theorem Instance.inFleet_steps (i : Instance F) : i.inFleet.Steps World.Beside where
  capable := fun _ _ => ⟨rfl, rfl⟩
  act := fun _ _ => ⟨rfl, rfl⟩
  blobs := fun _ => ⟨rfl, rfl⟩

namespace Workflow

/-- To ask the instances leaves the disk as it is. -/
theorem beside_inspectAll (is : List (Instance F)) (number : Nat) (w : World F) :
    w.Beside (inspectAll number (is.map Instance.inFleet) w).2 := by
  refine steps_inspectAll World.keeping_beside ?_ number w
  intro i hi
  obtain ⟨i', -, rfl⟩ := List.mem_map.mp hi
  exact i'.inFleet_steps

end Workflow

/-! ### What the blobs of a fleet hold -/

/-- Bytes for every blob: the blob `k` of the instance `n`. -/
abbrev Contents := Nat → Nat → Bytes

/-- The contents with other bytes at one place. -/
def Contents.put (c : Contents) (n k : Nat) (bytes : Bytes) : Contents :=
  fun n' k' => if n' = n ∧ k' = k then bytes else c n' k'

/-- A blob that streams what it holds, holds what it receives, and tells the digests of it. -/
def Blob.kept (n k : Nat) (id : Identifier) : Blob Contents where
  id := id
  size := fun c => (.ok (toString (c n k).length), c)
  digests := fun c =>
    ((Digests.ofArchive (c n k)).mapError fun fault => .fault (.checksum fault), c)
  fetch := fun _ c => ((c n k, .ok ()), c)
  replace := fun source c => (.ok (), c.put n k source.bytes)

theorem ids_kept (n : Nat) (ids : List Identifier) :
    (ids.mapIdx (Blob.kept n)).map (·.id) = ids := by
  ext k
  simp [Blob.kept]

/-- An instance that is capable of everything, and does nothing itself. -/
def Instance.kept (n : Nat) (id : Identifier) (ids : List Identifier) : Instance Contents where
  id := id
  capable := fun _ c => (.ok true, c)
  act := fun _ c => (.ok (), c)
  blobs := fun c => (.ok (ids.mapIdx (Blob.kept n)), c)

/-- Such instances, each with its identifier and those of its blobs. -/
def Deployment.kept (members : List (Identifier × List Identifier)) :
    Deployment Contents Unit where
  instances := fun _ => .ok (members.mapIdx fun n member => Instance.kept n member.1 member.2)
  manifest := fun _ => .ok ""

end DeploymentBackup
