import DeploymentBackup.Proofs.Artifact.Files
import DeploymentBackup.Proofs.Workflow.Fleet
import DeploymentBackup.Proofs.Workflow.History

namespace DeploymentBackup.Workflow

open Text Artifact

/-!
# The transfer of a blob

What the transfer of a blob does to the artifact can be told in three ways: nothing was
written; the archive was written, but it is not recorded; or it was written and is recorded,
because the bytes that the blob streamed have the digests that the blob reports.

* `TransferEnds` — the three ways.
* `record_run` — to record a blob.
* `Transfers`, `transfer_run` — the transfer of an observed blob, step by step.
* `transfer_ends` — every transfer of an observed blob ends in one of the three ways.
-/

variable {F α β : Type}

/-- A call of the blob at a position. -/
def isAt (k : Nat) : Call → Prop
  | .sized j _ | .digested j _ | .fetched j _ _ | .replaced j _ _ => j = k
  | .asked .. | .acted .. | .listed .. => False

/-- How the transfer of the blob `k` of the instance `n` ends, from a record `m` on. -/
inductive TransferEnds (a : Artifact) (n k : Nat) (blob : Identifier) (m : Metadata)
    (w w' : World (F × History)) : Except Halt Unit → Prop
  /-- Nothing was written. -/
  | unwritten {halt : Halt} (calls : List Call) (disk : w'.disk = w.disk)
      (history : w'.history = w.history ++ calls.map (Event.mk n))
      (own : ∀ c ∈ calls, isAt k c) :
      TransferEnds a n k blob m w w' (.error halt)
  /-- The archive was written, and it is not recorded. -/
  | unrecorded {halt : Halt} {bytes : Bytes} (calls : List Call) (admits : Admits blob)
      (stores : Disk.Stores w.disk w'.disk (a.blobPath blob) bytes)
      (history : w'.history = w.history ++ calls.map (Event.mk n))
      (own : ∀ c ∈ calls, isAt k c) :
      TransferEnds a n k blob m w w' (.error halt)
  /-- The archive was written and is recorded. -/
  | recorded {size : Except Halt String} {bytes : Bytes} {digests : Digests} {m' : Metadata}
      {disk : Disk} (admits : Admits blob)
      (stores : Disk.Stores w.disk disk (a.blobPath blob) bytes)
      (local_ : Digests.ofArchive bytes = .ok digests)
      (inserted : m.insert? blob digests = some m')
      (writes : Disk.Stores disk w'.disk a.metadataPath (encode m'.print))
      (history : w'.history = w.history ++ [⟨n, .sized k size⟩, ⟨n, .fetched k bytes (.ok ())⟩,
        ⟨n, .digested k (.ok digests)⟩]) :
      TransferEnds a n k blob m w w' (.ok ())

variable {a : Artifact} {n k : Nat} {m : Metadata} {w : World (F × History)}

theorem id_observed (b : Blob F) : (b.inFleet.observed n k).id = b.id := rfl

/-- The size does not matter, unless asking for it panics. -/
theorem size_attempt (b : Blob F) (w : World (F × History)) :
    ∃ w' size, w'.disk = w.disk ∧ w'.claimed = w.claimed ∧
      w'.history = w.history ++ [⟨n, .sized k size⟩] ∧
      ((∃ answer, (b.inFleet.observed n k).size.attempt w = (.ok answer, w')) ∨
        ∃ payload, size = .error (.panic payload) ∧
          (b.inFleet.observed n k).size.attempt w = (.error (.panic payload), w')) := by
  refine ⟨((b.inFleet.observed n k).size w).2, (b.size w.fleet.1).1, rfl, rfl, rfl, ?_⟩
  have hvalue : ((b.inFleet.observed n k).size w).1 = (b.size w.fleet.1).1 := rfl
  unfold Act.attempt
  rcases hrun : (b.inFleet.observed n k).size w with ⟨(cause | payload) | size, after⟩
  · exact .inl ⟨_, rfl⟩
  · rw [hrun] at hvalue
    exact .inr ⟨payload, hvalue.symm, rfl⟩
  · exact .inl ⟨_, rfl⟩

theorem changeDisk_ok {f : Disk → Except Artifact.Fault (α × Disk)} {v : α} {disk : Disk}
    {w : World F} (h : f w.disk = .ok (v, disk)) :
    changeDisk f w = (.ok v, { w with disk := disk }) := by
  unfold changeDisk
  rw [h]

theorem changeDisk_error {f : Disk → Except Artifact.Fault (α × Disk)} {fault : Artifact.Fault}
    {w : World F} (h : f w.disk = .error fault) :
    changeDisk f w = (.error (.fault (.artifact fault)), w) := by
  unfold changeDisk
  rw [h]

theorem inspectDisk_ok {f : Disk → Except Artifact.Fault α} {v : α} {w : World F}
    (h : f w.disk = .ok v) : inspectDisk f w = (.ok v, w) := by
  simp only [inspectDisk_eq, h]
  rfl

theorem inspectDisk_error {f : Disk → Except Artifact.Fault α} {fault : Artifact.Fault}
    {w : World F} (h : f w.disk = .error fault) :
    inspectDisk f w = (.error (.fault (.artifact fault)), w) := by
  simp only [inspectDisk_eq, h]
  rfl

/-- What a blob streams is written into the open file. -/
theorem store_run (b : Blob F) (file : Disk.WriteHandle) (w : World (F × History)) :
    ∃ w' bytes outcome, store (b.inFleet.observed n k) file w = (outcome, w') ∧
      w'.disk = w.disk.write file bytes ∧ w'.claimed = w.claimed ∧
      w'.history = w.history ++ [⟨n, .fetched k bytes outcome⟩] :=
  ⟨_, _, _, rfl, rfl, rfl, rfl⟩

/-- What a blob reports is noted. -/
theorem digests_run (b : Blob F) (w : World (F × History)) :
    ∃ w' answer, (b.inFleet.observed n k).digests w = (answer, w') ∧ w'.disk = w.disk ∧
      w'.claimed = w.claimed ∧ w'.history = w.history ++ [⟨n, .digested k answer⟩] :=
  ⟨_, _, rfl, rfl, rfl, rfl⟩

/-! ### What was stored is confirmed -/

/-- The end of a transfer: what was stored is recorded, once the blob reports its digests. -/
def confirm (a : Artifact) (blob : Blob (World F)) : Act (World F) Unit := do
  let stored ← inspectDisk (a.calculateDigests blob.id)
  let remote ← blob.digests
  if stored.agrees remote then
    changeDisk fun disk => (a.addDigests blob.id stored disk).map ((), ·)
  else Act.fail (.integrity blob.id (", ".intercalate (remote.differences stored)))

theorem transfer_eq (a : Artifact) (blob : Blob (World F)) :
    transfer a blob =
      (blob.size.attempt >>= fun _ => changeDisk (a.createFile blob.id) >>= fun file =>
        store blob file >>= fun _ => confirm a blob) := rfl

/-- To record a blob changes the record alone, or nothing when it is recorded already. -/
theorem record_run {w : World F} {blob : Identifier} (hsound : a.Sound w.disk)
    (hrecord : a.HasRecord m w.disk) (digests : Digests) :
    (∃ m' disk, changeDisk (fun disk => (a.addDigests blob digests disk).map ((), ·)) w =
        (.ok (), { w with disk := disk }) ∧ m.insert? blob digests = some m' ∧
        Disk.Stores w.disk disk a.metadataPath (encode m'.print)) ∨
      m.insert? blob digests = none ∧
        changeDisk (fun disk => (a.addDigests blob digests disk).map ((), ·)) w =
          (.error (.fault (.artifact (.duplicateEntry blob))), w) := by
  rcases addDigests_stores hsound hrecord digests with
    ⟨m', disk, hinsert, hadd, hwrites⟩ | ⟨hnone, hadd⟩
  · exact .inl ⟨m', disk, changeDisk_ok (by rw [hadd]; rfl), hinsert, hwrites⟩
  · exact .inr ⟨hnone, changeDisk_error (by rw [hadd]; rfl)⟩

/-! ### The whole transfer -/

/-- The archive of a blob was made, and these bytes were written into it. -/
def Fills (a : Artifact) (blob : Identifier) (bytes : Bytes) (disk full : Disk) : Prop :=
  ∃ file made, a.createFile blob disk = .ok (file, made) ∧ full = made.write file bytes

theorem Fills.stores {blob : Identifier} {bytes : Bytes} {disk full : Disk} (hsound : a.Sound disk)
    (h : Fills a blob bytes disk full) :
    Admits blob ∧ Disk.Stores disk full (a.blobPath blob) bytes := by
  obtain ⟨file, made, hcreate, rfl⟩ := h
  obtain ⟨hadmits, hstores⟩ := createFile_stores hsound hcreate
  exact ⟨hadmits, hstores bytes⟩

/-- The transfer of the blob `k`: what the blob is called for, how that ends, and what becomes of
    the disk. Each way to end goes one step further than the one in front of it. -/
inductive Transfers (a : Artifact) (k : Nat) (blob : Identifier) (disk : Disk) :
    List Call → Except Halt Unit → Disk → Prop
  /-- Asking for the size panicked. -/
  | panicked (payload : Panic) :
      Transfers a k blob disk [.sized k (.error (.panic payload))] (.error (.panic payload)) disk
  /-- The archive cannot be made. -/
  | unopened (size : Except Halt String) (fault : Artifact.Fault) :
      Transfers a k blob disk [.sized k size] (.error (.fault (.artifact fault))) disk
  | unstreamed {bytes : Bytes} {full : Disk} (size : Except Halt String) (halt : Halt)
      (fills : Fills a blob bytes disk full) :
      Transfers a k blob disk [.sized k size, .fetched k bytes (.error halt)] (.error halt) full
  | unread {bytes : Bytes} {full : Disk} {fault : Artifact.Fault} (size : Except Halt String)
      (fills : Fills a blob bytes disk full)
      (read : a.calculateDigests blob full = .error fault) :
      Transfers a k blob disk [.sized k size, .fetched k bytes (.ok ())]
        (.error (.fault (.artifact fault))) full
  | unreported {bytes : Bytes} {full : Disk} {stored : Digests} (size : Except Halt String)
      (halt : Halt) (fills : Fills a blob bytes disk full)
      (read : a.calculateDigests blob full = .ok stored) :
      Transfers a k blob disk
        [.sized k size, .fetched k bytes (.ok ()), .digested k (.error halt)] (.error halt) full
  | differing {bytes : Bytes} {full : Disk} {stored remote : Digests} (size : Except Halt String)
      (fills : Fills a blob bytes disk full) (read : a.calculateDigests blob full = .ok stored)
      (differs : stored ≠ remote) :
      Transfers a k blob disk [.sized k size, .fetched k bytes (.ok ()), .digested k (.ok remote)]
        (.error (.fault (.integrity blob (", ".intercalate (remote.differences stored))))) full
  | refused {bytes : Bytes} {full : Disk} {digests : Digests} {fault : Artifact.Fault}
      (size : Except Halt String) (fills : Fills a blob bytes disk full)
      (read : a.calculateDigests blob full = .ok digests)
      (refused : a.addDigests blob digests full = .error fault) :
      Transfers a k blob disk [.sized k size, .fetched k bytes (.ok ()), .digested k (.ok digests)]
        (.error (.fault (.artifact fault))) full
  | recorded {bytes : Bytes} {full disk' : Disk} {digests : Digests} (size : Except Halt String)
      (fills : Fills a blob bytes disk full) (read : a.calculateDigests blob full = .ok digests)
      (added : a.addDigests blob digests full = .ok disk') :
      Transfers a k blob disk [.sized k size, .fetched k bytes (.ok ()), .digested k (.ok digests)]
        (.ok ()) disk'

theorem Transfers.own {blob : Identifier} {disk disk' : Disk} {calls : List Call}
    {outcome : Except Halt Unit} (h : Transfers a k blob disk calls outcome disk') :
    ∀ c ∈ calls, isAt k c := by
  cases h <;> simp [isAt]

/-- Whatever a blob of a fleet does, its transfer is one of these, and takes nothing else. -/
theorem transfer_run (b : Blob F) (w : World (F × History)) :
    ∃ w' calls outcome, transfer a (b.inFleet.observed n k) w = (outcome, w') ∧
      w'.claimed = w.claimed ∧ w'.history = w.history ++ calls.map (Event.mk n) ∧
      Transfers a k b.id w.disk calls outcome w'.disk := by
  rw [transfer_eq]
  obtain ⟨w₁, size, hdisk₁, hclaimed₁, hhistory₁, ⟨answer, hsize⟩ | ⟨payload, rfl, hsize⟩⟩ :=
    size_attempt (n := n) (k := k) b w
  · rw [bind_of_ok hsize, id_observed]
    cases hcreate : a.createFile b.id w₁.disk with
    | error fault =>
      rw [bind_of_error (changeDisk_error hcreate)]
      refine ⟨w₁, [.sized k size], _, rfl, hclaimed₁, hhistory₁, ?_⟩
      rw [hdisk₁]
      exact .unopened size fault
    | ok created =>
      obtain ⟨file, made⟩ := created
      rw [bind_of_ok (changeDisk_ok hcreate)]
      rw [hdisk₁] at hcreate
      obtain ⟨w₂, bytes, streamed, hstore, hdisk₂, hclaimed₂, hhistory₂⟩ :=
        store_run (n := n) (k := k) b file { w₁ with disk := made }
      -- From here on the archive is written, whatever else becomes of the transfer.
      have hfills : Fills a b.id bytes w.disk w₂.disk := ⟨file, made, hcreate, hdisk₂⟩
      have hclaimed₂ : w₂.claimed = w.claimed := hclaimed₂.trans hclaimed₁
      have hhistory₂ : w₂.history =
          w.history ++ [Call.sized k size, .fetched k bytes streamed].map (Event.mk n) := by
        rw [hhistory₂, show World.history { w₁ with disk := made } = w₁.history from rfl, hhistory₁,
          List.append_assoc]
        rfl
      cases streamed with
      | error halt =>
        rw [bind_of_error hstore]
        exact ⟨w₂, _, _, rfl, hclaimed₂, hhistory₂, .unstreamed size halt hfills⟩
      | ok _ =>
        rw [bind_of_ok hstore, confirm, id_observed]
        cases hread : a.calculateDigests b.id w₂.disk with
        | error fault =>
          rw [bind_of_error (inspectDisk_error hread)]
          exact ⟨w₂, _, _, rfl, hclaimed₂, hhistory₂, .unread size hfills hread⟩
        | ok stored =>
          rw [bind_of_ok (inspectDisk_ok hread)]
          obtain ⟨w₃, reported, hremote, hdisk₃, hclaimed₃, hhistory₃⟩ :=
            digests_run (n := n) (k := k) b w₂
          rw [← hdisk₃] at hfills hread
          have hclaimed₃ := hclaimed₃.trans hclaimed₂
          have hhistory₃ : w₃.history = w.history ++ [Call.sized k size, .fetched k bytes (.ok ()),
              .digested k reported].map (Event.mk n) := by
            rw [hhistory₃, hhistory₂, List.append_assoc]
            rfl
          cases reported with
          | error halt =>
            rw [bind_of_error hremote]
            exact ⟨w₃, _, _, rfl, hclaimed₃, hhistory₃, .unreported size halt hfills hread⟩
          | ok remote =>
            rw [bind_of_ok hremote]
            by_cases hagrees : stored = remote
            · subst hagrees
              rw [if_pos (by simp [Digests.agrees])]
              cases hadd : a.addDigests b.id stored w₃.disk with
              | error fault =>
                rw [changeDisk_error (by rw [hadd]; rfl)]
                exact ⟨w₃, _, _, rfl, hclaimed₃, hhistory₃, .refused size hfills hread hadd⟩
              | ok disk' =>
                have hrecord : (a.addDigests b.id stored w₃.disk).map ((), ·) = .ok ((), disk') := by
                  rw [hadd]
                  rfl
                rw [changeDisk_ok hrecord]
                exact ⟨{ w₃ with disk := disk' }, _, _, rfl, hclaimed₃, hhistory₃,
                  .recorded size hfills hread hadd⟩
            · rw [if_neg (by simpa [Digests.agrees] using hagrees)]
              exact ⟨w₃, _, _, rfl, hclaimed₃, hhistory₃, .differing size hfills hread hagrees⟩
  · rw [bind_of_error hsize]
    refine ⟨w₁, [.sized k (.error (.panic payload))], _, rfl, hclaimed₁, hhistory₁, ?_⟩
    rw [hdisk₁]
    exact .panicked payload

/-- What was stored is recorded as it was read, when it is recorded. -/
theorem recorded_run {blob : Identifier} {bytes : Bytes} {digests : Digests} {disk full : Disk}
    (hsound : a.Sound disk) (hrecord : a.HasRecord m disk) (hfills : Fills a blob bytes disk full)
    (hread : a.calculateDigests blob full = .ok digests) :
    Digests.ofArchive bytes = .ok digests ∧
      ((∃ m' disk', m.insert? blob digests = some m' ∧
          a.addDigests blob digests full = .ok disk' ∧
          Disk.Stores full disk' a.metadataPath (encode m'.print)) ∨
        m.insert? blob digests = none ∧
          a.addDigests blob digests full = .error (.duplicateEntry blob)) := by
  obtain ⟨hadmits, hstores⟩ := hfills.stores hsound
  have hsound' := hstores.clean hsound
  rw [calculateDigests_of_keeps hsound' hadmits (keeps_of_stores hstores)] at hread
  exact ⟨ok_of_mapError hread, addDigests_stores hsound' (hrecord.of_stores hstores) digests⟩

/-- Every transfer ends in one of the three ways, and takes nothing else. -/
theorem transfer_ends (hsound : a.Sound w.disk) (hrecord : a.HasRecord m w.disk) (b : Blob F) :
    (transfer a (b.inFleet.observed n k) w).2.claimed = w.claimed ∧
      TransferEnds a n k b.id m w (transfer a (b.inFleet.observed n k) w).2
        (transfer a (b.inFleet.observed n k) w).1 := by
  obtain ⟨w', calls, outcome, hrun, hclaimed, hhistory, htransfers⟩ :=
    transfer_run (a := a) (n := n) (k := k) b w
  rw [hrun]
  refine ⟨hclaimed, ?_⟩
  have hown := htransfers.own
  -- Once the file is made, all ends but the last leave bytes behind that are not recorded.
  have hunrecorded {bytes : Bytes} {halt : Halt} (hfills : Fills a b.id bytes w.disk w'.disk) :
      TransferEnds a n k b.id m w w' (.error halt) := by
    obtain ⟨hadmits, hstores⟩ := hfills.stores hsound
    exact .unrecorded calls hadmits hstores hhistory hown
  generalize hdisk : w'.disk = disk' at htransfers hunrecorded
  cases htransfers with
  | panicked payload => exact .unwritten _ hdisk hhistory hown
  | unopened size fault => exact .unwritten _ hdisk hhistory hown
  | unstreamed size halt fills => exact hunrecorded fills
  | unread size fills read => exact hunrecorded fills
  | unreported size halt fills read => exact hunrecorded fills
  | differing size fills read differs => exact hunrecorded fills
  | refused size fills read refused => exact hunrecorded fills
  | recorded size fills read added =>
    obtain ⟨hadmits, hstores⟩ := fills.stores hsound
    obtain ⟨hlocal, ⟨m', disk₂, hinsert, hadd, hwrites⟩ | ⟨-, hadd⟩⟩ :=
      recorded_run hsound hrecord fills read
    · rw [added] at hadd
      cases hadd
      exact .recorded hadmits hstores hlocal hinsert (hdisk ▸ hwrites) hhistory
    · rw [added] at hadd
      cases hadd

end DeploymentBackup.Workflow
