import DeploymentBackup.Metadata.Basic
import Mathlib.Data.List.Find
import Mathlib.Data.List.Nodup
import Mathlib.Data.List.Perm.Basic

namespace DeploymentBackup.Metadata

/-!
# What a record holds

The two sections of a record are one list of blobs with their digests, in which each blob is
looked up and to which each blob is added once.

* `ids` — the recorded blobs.
* `Proper` — each record of an instance has an index, as those that a backup makes do.
* `digestsFor?_eq` — where digests are looked up.
* `mem_instanceIdentifiers` — the recorded instances.
* `perm_of_digestsFor?` — records that say the same differ in the order of their sections.
* `insert?_isSome`, `insert?_spec` — one more blob.
-/

/-- The recorded blobs. -/
def ids (m : Metadata) : List Identifier :=
  m.recorded.map (·.1)

/-- No record of an instance lacks an index. -/
def Proper (m : Metadata) : Prop :=
  ∀ r ∈ m.instances, r.index ≠ ""

/-! ### Looking digests up -/

theorem identifier_indexed (r : InstanceRecord) (hr : r.index ≠ "") (blob : Identifier) :
    r.identifier = blob ↔ r.name = blob.name ∧ some r.index = blob.index := by
  obtain ⟨name, index, hindex⟩ := blob
  have hfilter : (some r.index).filter (· ≠ "") = some r.index := by
    simp [Option.filter, hr]
  simp only [InstanceRecord.identifier, Identifier.indexed, Identifier.of, hfilter,
    Identifier.mk.injEq]

theorem identifier_named (r : BlobRecord) (blob : Identifier) :
    r.identifier = blob ↔ r.name = blob.name ∧ none = blob.index := by
  obtain ⟨name, index, hindex⟩ := blob
  simp only [BlobRecord.identifier, Identifier.named, Identifier.of, Option.filter_none,
    Identifier.mk.injEq]

/-- The section of the kind of a blob is the only one that can hold it. -/
theorem digestsFor?_eq {m : Metadata} (hm : m.Proper) (blob : Identifier) :
    m.digestsFor? blob = (m.recorded.find? (·.1 = blob)).map (·.2) := by
  unfold digestsFor? recorded
  rw [List.find?_append, List.find?_map, List.find?_map]
  cases hindex : blob.index with
  | some index =>
    -- The records are told apart by the index: only those of instances have one.
    have hothers : m.blobs.find? ((fun e : Identifier × Digests => decide (e.1 = blob)) ∘
        fun r => (r.identifier, r.digests)) = none := by
      rw [List.find?_eq_none]
      intro r _ hr
      have heq : r.identifier = blob := by simpa using hr
      have hnone := ((identifier_named r blob).mp heq).2
      rw [hindex] at hnone
      cases hnone
    rw [hothers, Option.map_none, Option.or_none, Option.map_map]
    refine congrArg (Option.map _) (List.find?_congr fun r hr => ?_)
    rw [Bool.eq_iff_iff]
    simp [identifier_indexed r (hm r hr) blob, hindex]
  | none =>
    have hothers : m.instances.find? ((fun e : Identifier × Digests => decide (e.1 = blob)) ∘
        fun r => (r.identifier, r.digests)) = none := by
      rw [List.find?_eq_none]
      intro r hr heq
      have heq : r.identifier = blob := by simpa using heq
      have hsome := ((identifier_indexed r (hm r hr) blob).mp heq).2
      rw [hindex] at hsome
      cases hsome
    rw [hothers, Option.map_none, Option.none_or, Option.map_map]
    refine congrArg (Option.map _) (List.find?_congr fun r _ => ?_)
    rw [Bool.eq_iff_iff]
    simp [identifier_named r blob, hindex]

theorem digestsFor?_eq_none {m : Metadata} (hm : m.Proper) (blob : Identifier) :
    m.digestsFor? blob = none ↔ blob ∉ m.ids := by
  rw [digestsFor?_eq hm, Option.map_eq_none_iff, List.find?_eq_none, ids, List.mem_map]
  constructor
  · rintro h ⟨e, he, heq⟩
    exact h e he (by simpa using heq)
  · intro h e he heq
    exact h ⟨e, he, by simpa using heq⟩

/-- What is recorded of a blob is found, when nothing else is. -/
theorem digestsFor?_of_mem {m : Metadata} (hm : m.Proper) (hnodup : m.ids.Nodup)
    {blob : Identifier} {digests : Digests} (hmem : (blob, digests) ∈ m.recorded) :
    m.digestsFor? blob = some digests := by
  rw [digestsFor?_eq hm]
  cases hfind : m.recorded.find? (·.1 = blob) with
  | none =>
    have hnone := List.find?_eq_none.mp hfind _ hmem
    simp at hnone
  | some e =>
    have hsame : e.1 = blob := by simpa using List.find?_some hfind
    have heq := List.inj_on_of_nodup_map hnodup (List.mem_of_find?_eq_some hfind) hmem hsame
    rw [heq]
    rfl

theorem isNamed_instance {m : Metadata} (hm : m.Proper) {r : InstanceRecord}
    (hr : r ∈ m.instances) : r.identifier.isNamed = false := by
  have hindex := ((identifier_indexed r (hm r hr) _).mp rfl).2
  rw [Identifier.isNamed, ← hindex]
  rfl

theorem isNamed_blob (r : BlobRecord) : r.identifier.isNamed = true := by
  have hindex := ((identifier_named r _).mp rfl).2
  rw [Identifier.isNamed, ← hindex]
  rfl

theorem ids_eq (m : Metadata) : m.ids = m.instanceIdentifiers ++ m.blobs.map (·.identifier) := by
  simp only [ids, recorded, instanceIdentifiers, List.map_append, List.map_map]
  rfl

/-- The recorded instances are the recorded blobs that are not shared. -/
theorem mem_instanceIdentifiers {m : Metadata} (hm : m.Proper) (blob : Identifier) :
    blob ∈ m.instanceIdentifiers ↔ blob ∈ m.ids ∧ blob.isNamed = false := by
  rw [ids_eq, List.mem_append]
  constructor
  · intro h
    refine ⟨.inl h, ?_⟩
    obtain ⟨r, hr, rfl⟩ := List.mem_map.mp h
    exact isNamed_instance hm hr
  · rintro ⟨h | h, hnamed⟩
    · exact h
    · obtain ⟨r, -, rfl⟩ := List.mem_map.mp h
      rw [isNamed_blob] at hnamed
      cases hnamed

theorem nodup_instanceIdentifiers {m : Metadata} (h : m.ids.Nodup) :
    m.instanceIdentifiers.Nodup := by
  rw [ids_eq] at h
  exact h.of_append_left

/-! ### Records that say the same -/

/-- The sections are told apart by the kind of their blobs. -/
theorem filter_recorded {m : Metadata} (hm : m.Proper) :
    m.recorded.filter (! ·.1.isNamed) = m.instances.map (fun r => (r.identifier, r.digests)) ∧
      m.recorded.filter (·.1.isNamed) = m.blobs.map fun r => (r.identifier, r.digests) := by
  have hinstances : ∀ e ∈ m.instances.map (fun r => (r.identifier, r.digests)),
      e.1.isNamed = false := by
    intro e he
    obtain ⟨r, hr, rfl⟩ := List.mem_map.mp he
    exact isNamed_instance hm hr
  have hblobs : ∀ e ∈ m.blobs.map (fun r => (r.identifier, r.digests)), e.1.isNamed = true := by
    intro e he
    obtain ⟨r, -, rfl⟩ := List.mem_map.mp he
    exact isNamed_blob r
  unfold recorded
  constructor
  · rw [List.filter_append, List.filter_eq_self.mpr fun e he => by rw [hinstances e he]; rfl,
      List.filter_eq_nil_iff.mpr fun e he => by rw [hblobs e he]; decide, List.append_nil]
  · rw [List.filter_append, List.filter_eq_nil_iff.mpr fun e he => by rw [hinstances e he]; decide,
      List.filter_eq_self.mpr hblobs, List.nil_append]

theorem insert?_isSome {m : Metadata} (hm : m.Proper) {blob : Identifier} (h : blob ∉ m.ids)
    (digests : Digests) : ∃ m', m.insert? blob digests = some m' := by
  unfold insert?
  rw [(digestsFor?_eq_none hm blob).mpr h]
  cases blob.index with
  | some index => exact ⟨_, rfl⟩
  | none => exact ⟨_, rfl⟩

/-- One more blob, and all those that were recorded before. -/
structure Inserted (m : Metadata) (blob : Identifier) (digests : Digests) (m' : Metadata) :
    Prop where
  fresh : blob ∉ m.ids
  proper : m'.Proper
  recorded : m'.recorded.Perm ((blob, digests) :: m.recorded)
  instances : m'.instanceIdentifiers =
    m.instanceIdentifiers ++ (if blob.isNamed then [] else [blob])

theorem insert?_spec {m m' : Metadata} (hm : m.Proper) {blob : Identifier} {digests : Digests}
    (h : m.insert? blob digests = some m') : Inserted m blob digests m' := by
  unfold insert? at h
  cases hfound : m.digestsFor? blob with
  | some old =>
    rw [hfound] at h
    cases h
  | none =>
    rw [hfound] at h
    have hfresh := (digestsFor?_eq_none hm blob).mp hfound
    cases hindex : blob.index with
    | some index =>
      rw [hindex] at h
      cases h
      -- The blob of an instance comes behind those of the other instances, and a shared one at the
      -- end.
      have hne : index ≠ "" := by
        intro hempty
        exact blob.index_ne_empty (by rw [hindex, hempty])
      have hident : (InstanceRecord.mk blob.name index digests).identifier = blob :=
        (identifier_indexed _ hne blob).mpr ⟨rfl, hindex.symm⟩
      refine ⟨hfresh, ?_, ?_, ?_⟩
      · intro r hr
        rcases List.mem_append.mp hr with hr | hr
        · exact hm r hr
        · rw [List.mem_singleton.mp hr]
          exact hne
      · simp only [Metadata.recorded, List.map_append, List.map_cons, List.map_nil, hident,
          List.append_assoc, List.singleton_append]
        exact List.perm_middle
      · simp [instanceIdentifiers, Identifier.isNamed, hindex, hident]
    | none =>
      rw [hindex] at h
      cases h
      have hident : (BlobRecord.mk blob.name digests).identifier = blob :=
        (identifier_named _ blob).mpr ⟨rfl, hindex.symm⟩
      refine ⟨hfresh, hm, ?_, ?_⟩
      · simp only [Metadata.recorded, List.map_append, List.map_cons, List.map_nil, hident,
          ← List.append_assoc]
        exact List.perm_append_singleton _ _
      · simp [instanceIdentifiers, Identifier.isNamed, hindex]

namespace Inserted

variable {m m' : Metadata} {blob : Identifier} {digests : Digests}

theorem mem_recorded (h : Inserted m blob digests m') {e : Identifier × Digests} :
    e ∈ m'.recorded ↔ e = (blob, digests) ∨ e ∈ m.recorded := by
  rw [h.recorded.mem_iff, List.mem_cons]

theorem ids_perm (h : Inserted m blob digests m') : m'.ids.Perm (blob :: m.ids) :=
  h.recorded.map Prod.fst

theorem mem_ids (h : Inserted m blob digests m') {other : Identifier} :
    other ∈ m'.ids ↔ other = blob ∨ other ∈ m.ids := by
  rw [h.ids_perm.mem_iff, List.mem_cons]

theorem nodup (h : Inserted m blob digests m') (hnodup : m.ids.Nodup) : m'.ids.Nodup :=
  h.ids_perm.nodup_iff.mpr (List.nodup_cons.mpr ⟨h.fresh, hnodup⟩)

end Inserted

end DeploymentBackup.Metadata
