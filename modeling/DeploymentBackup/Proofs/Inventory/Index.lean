import DeploymentBackup.Inventory.Lookup

namespace DeploymentBackup

open Text Yaml

/-!
# An index in an inventory and in a record

An instance has its index from an inventory, and a record of its blob has it from the metadata of an
artifact. Each is read by a reader of its own, and both have to see the same index in the same
scalar, or a backup would not fit the deployment that it was taken from.

* `Yaml.IsIndex` — what a scalar says as an index.
* `Inventory.readIndex_eq_ok_iff`, `Metadata.readIndex_eq_ok_iff` — the two readers.
* `Inventory.hosts_ids` — the identifiers of the instances of an inventory.
* `Inventory.index_alike` — both readers see the same index.
-/

/-! ### Indices -/

namespace Yaml

/-- A scalar says an index: it is this text, or an integer that is spelled so and of at most 64
    bits, from a least one on. -/
def IsIndex (least : Int) (s : Scalar) (text : String) : Prop :=
  s.meaning = .ok (.text text) ∨
    ∃ n : Int, s.meaning = .ok (.integer n) ∧ least ≤ n ∧ n < UInt64.size ∧ text = toString n

variable {s : Scalar} {text : String} {least : Int}

/-- An integer below zero is written with a minus sign. -/
theorem minus_of_integer?_neg {cs : List Char} {n : Int} (h : integer? cs = some n) (hn : n < 0) :
    ∃ digits, cs = '-' :: digits := by
  unfold integer? at h
  split at h
  · cases h
  · split at h
    · exact ⟨_, rfl⟩
    · -- Without the sign the value is a natural number.
      obtain ⟨value, -, h⟩ := Option.bind_eq_some_iff.mp h
      split at h
      · cases h
        omega
      · cases h

/-- A scalar that means an integer spells it, whatever its tag and style are. -/
theorem Scalar.integer?_of_meaning {n : Int} (h : s.meaning = .ok (.integer n)) :
    integer? s.text.toList = some n := by
  unfold Scalar.meaning at h
  split at h
  · split at h
    · have h := Except.ok.inj h
      unfold meaningOf at h
      split at h
      · cases h
      · split at h
        · cases h
        · rename_i hinteger
          rw [hinteger, Meaning.integer.inj h]
        · split at h <;> cases h
    · cases h
  · repeat' split at h
    all_goals cases h
    rename_i hinteger
    exact hinteger

/-- The text of a meaning as an index. Both readers are of this form. -/
def indexOf (least : Int) (otherwise : Fault) : Except Fault Meaning → Except Fault String
  | .error fault => .error fault
  | .ok (.text text) => .ok text
  | .ok (.integer n) =>
    if least ≤ n ∧ n < UInt64.size then .ok (toString n) else .error otherwise
  | .ok _ => .error otherwise

theorem indexOf_eq_ok_iff {otherwise : Fault} :
    indexOf least otherwise s.meaning = .ok text ↔ IsIndex least s text := by
  constructor
  · intro h
    unfold indexOf at h
    split at h
    · cases h
    · rename_i hmeaning
      cases h
      exact .inl hmeaning
    · rename_i n hmeaning
      split at h
      · rename_i hbounds
        cases h
        exact .inr ⟨n, hmeaning, hbounds.1, hbounds.2, rfl⟩
      · cases h
    · cases h
  · rintro (hmeaning | ⟨n, hmeaning, hleast, hbound, rfl⟩)
    · rw [hmeaning]
      rfl
    · rw [hmeaning]
      exact if_pos ⟨hleast, hbound⟩

theorem IsIndex.mono {more : Int} (hle : least ≤ more) (h : IsIndex more s text) :
    IsIndex least s text := by
  obtain h | ⟨n, hmeaning, hleast, hbound, htext⟩ := h
  · exact .inl h
  · exact .inr ⟨n, hmeaning, Int.le_trans hle hleast, hbound, htext⟩

/-- What a scalar says only when integers below zero count are these integers. -/
theorem isIndex_only_neg_iff :
    ((∃ text, IsIndex least s text) ∧ ∀ text, ¬ IsIndex 0 s text) ↔
      ∃ n : Int, s.meaning = .ok (.integer n) ∧ least ≤ n ∧ n < 0 := by
  constructor
  · rintro ⟨⟨text, hmeaning | ⟨n, hmeaning, hleast, hbound, -⟩⟩, hnone⟩
    · exact absurd (.inl hmeaning) (hnone text)
    · refine ⟨n, hmeaning, hleast, Int.not_le.mp fun hzero => ?_⟩
      exact hnone (toString n) (.inr ⟨n, hmeaning, hzero, hbound, rfl⟩)
  · rintro ⟨n, hmeaning, hleast, hneg⟩
    have hbound : n < UInt64.size := by omega
    refine ⟨⟨toString n, .inr ⟨n, hmeaning, hleast, hbound, rfl⟩⟩, fun text hindex => ?_⟩
    obtain hother | ⟨m, hother, hzero, -⟩ := hindex
    · rw [hmeaning] at hother
      cases hother
    · rw [hmeaning] at hother
      cases hother
      omega

end Yaml

variable {d : Document} {node : Node} {s : Scalar} {text : String}

theorem Inventory.readIndex_eq_ok_iff (hs : d.scalar node = .ok s) :
    readIndex d node = .ok text ↔ IsIndex 0 s text := by
  have hread : readIndex d node =
      indexOf 0 (.wrongKind "an index as a string or unsigned integer") s.meaning := by
    rw [readIndex, hs]
    rfl
  rw [hread, indexOf_eq_ok_iff]

theorem Metadata.readIndex_eq_ok_iff (hs : d.scalar node = .ok s) :
    readIndex d node = .ok text ↔ IsIndex Int64.minValue.toInt s text := by
  have hread : readIndex d node = indexOf Int64.minValue.toInt
      (.wrongKind "an instance index as a string or integer") s.meaning := by
    rw [readIndex, hs]
    rfl
  rw [hread, indexOf_eq_ok_iff]

/-! ### Instances and records -/

namespace Yaml

/-- The known fields of a record at a node. -/
def Document.fields (d : Document) (known : List String) (node : Node) : Except Fault Fields :=
  d.entries node >>= Fields.ofEntries d known

theorem bind_eq_ok_iff {α β : Type} {x : Except Fault α} {f : α → Except Fault β} {b : β} :
    (x >>= f) = .ok b ↔ ∃ a, x = .ok a ∧ f a = .ok b := by
  cases x with
  | error fault => exact ⟨nofun, fun ⟨_, hx, _⟩ => nomatch hx⟩
  | ok a => exact ⟨fun h => ⟨a, rfl, h⟩, fun ⟨_, hx, h⟩ => by cases hx; exact h⟩

end Yaml

namespace Inventory

/-- The fields of an entry of an inventory. -/
def listedFields : List String := ["name", "index", "id", "host", "port"]

/-- An entry that is read has the index that its field says. -/
theorem readIndex_of_readListed {entry : Node} {fields : Fields} {l : Listed}
    (hfields : d.fields listedFields entry = .ok fields) (hread : readListed d entry = .ok l)
    (hindex : fields.lookup "index" = some node) : readIndex d node = .ok l.index := by
  obtain ⟨entries, hentries, hof⟩ := bind_eq_ok_iff.mp hfields
  obtain ⟨entries', hentries', hread⟩ := bind_eq_ok_iff.mp hread
  obtain rfl := Except.ok.inj (hentries.symm.trans hentries')
  obtain ⟨fields', hof', hread⟩ := bind_eq_ok_iff.mp hread
  obtain rfl := Except.ok.inj (hof.symm.trans hof')
  obtain ⟨name, -, hread⟩ := bind_eq_ok_iff.mp hread
  obtain ⟨index, hget, hread⟩ := bind_eq_ok_iff.mp hread
  obtain ⟨id, -, hread⟩ := bind_eq_ok_iff.mp hread
  obtain ⟨host, -, hread⟩ := bind_eq_ok_iff.mp hread
  obtain ⟨port, -, hread⟩ := bind_eq_ok_iff.mp hread
  cases hread
  rwa [Fields.get, hindex] at hget

end Inventory

namespace Metadata

/-- The fields of the record of an instance. -/
def instanceFields : List String := ["instance_name", "instance_index", "checksums"]

/-- A record is read when each of its fields is. -/
theorem readInstance_of_fields {record : Node} {fields : Fields} {name index : String}
    {digests : Digests} (hfields : d.fields instanceFields record = .ok fields)
    (hname : fields.get "instance_name" d.text = .ok name)
    (hindex : fields.get "instance_index" (readIndex d) = .ok index)
    (hdigests : fields.getD "checksums" Digests.empty (readDigests d) = .ok digests) :
    readInstance d record = .ok ⟨name, index, digests⟩ := by
  obtain ⟨entries, hentries, hof⟩ := bind_eq_ok_iff.mp hfields
  refine bind_eq_ok_iff.mpr ⟨entries, hentries, bind_eq_ok_iff.mpr ⟨fields, hof, ?_⟩⟩
  refine bind_eq_ok_iff.mpr ⟨name, hname, bind_eq_ok_iff.mpr ⟨index, hindex, ?_⟩⟩
  exact bind_eq_ok_iff.mpr ⟨digests, hdigests, rfl⟩

end Metadata

namespace Inventory

/-- The instances of an inventory have the names and the indices that are listed there, unless an
    index is blank. -/
theorem Directory.hosts_ids (s : Directory) (deployment : String) {listed : List Listed}
    (number : Nat) (hindex : ∀ l ∈ listed, blank l.index = false) :
    ∃ instances, s.hosts deployment number listed = .ok instances ∧
      instances.map (·.id) = listed.map fun l => .indexed l.name l.index := by
  induction listed generalizing number with
  | nil => exact ⟨[], rfl, rfl⟩
  | cons l rest ih =>
    obtain ⟨hfirst, hrest⟩ := List.forall_mem_cons.mp hindex
    obtain ⟨instances, hinstances, hids⟩ := ih (number + 1) hrest
    refine ⟨(s.hostOf number l).toInstance :: instances, ?_, ?_⟩
    · rw [Directory.hosts, if_neg (by simp [hfirst]), hinstances]
      rfl
    · rw [List.map_cons, List.map_cons, hids]
      rfl

/-- Whatever a scalar is, as the index of an instance in an inventory and as that of a record it is
    read alike: a text that the inventory has from it the record has too, and what only a record
    may have are integers that are written with a minus sign. So an entry of an inventory and a
    record with its name and with this scalar as index are of one instance: the record can be read,
    and unless an index is blank, its identifier is that of the instance that is reached. -/
theorem index_alike {d d' : Document} {node node' : Node} {s : Scalar}
    (hlisted : d.scalar node = .ok s) (hrecorded : d'.scalar node' = .ok s) :
    (∀ text, readIndex d node = .ok text → Metadata.readIndex d' node' = .ok text) ∧
      ((∃ text, Metadata.readIndex d' node' = .ok text) ∧ (∀ text, readIndex d node ≠ .ok text) ↔
        ∃ digits n, s.text.toList = '-' :: digits ∧ s.meaning = .ok (.integer n) ∧
          Int64.minValue.toInt ≤ n ∧ n < 0) ∧
      ∀ (entry record : Node) (fields fields' : Fields) (l : Listed) (digests : Digests),
        d.fields listedFields entry = .ok fields → fields.lookup "index" = some node →
        readListed d entry = .ok l →
        d'.fields Metadata.instanceFields record = .ok fields' →
        fields'.lookup "instance_index" = some node' →
        fields'.get "instance_name" d'.text = .ok l.name →
        fields'.getD "checksums" Digests.empty (Metadata.readDigests d') = .ok digests →
        ∃ r, Metadata.readInstance d' record = .ok r ∧ r.digests = digests ∧
          ∀ (directory : Directory) (deployment : String) (listed : List Listed) (k : Nat),
            (∀ other ∈ listed, blank other.index = false) → listed[k]? = some l →
            ∃ instances, directory.hosts deployment 0 listed = .ok instances ∧
              instances[k]?.map (·.id) = some r.identifier := by
  have hsame (text : String) (hread : readIndex d node = .ok text) :
      Metadata.readIndex d' node' = .ok text := by
    rw [readIndex_eq_ok_iff hlisted] at hread
    rw [Metadata.readIndex_eq_ok_iff hrecorded]
    exact hread.mono (by decide)
  refine ⟨hsame, ?_, ?_⟩
  · -- The readers differ in the least number only.
    simp only [ne_eq, readIndex_eq_ok_iff hlisted, Metadata.readIndex_eq_ok_iff hrecorded]
    rw [isIndex_only_neg_iff]
    constructor
    · rintro ⟨n, hmeaning, hleast, hneg⟩
      obtain ⟨digits, hdigits⟩ := minus_of_integer?_neg (Scalar.integer?_of_meaning hmeaning) hneg
      exact ⟨digits, n, hdigits, hmeaning, hleast, hneg⟩
    · rintro ⟨-, n, -, hmeaning, hleast, hneg⟩
      exact ⟨n, hmeaning, hleast, hneg⟩
  · -- The identifier of the instance and that of the record are made of the same name and index.
    intro entry record fields fields' l digests hfields hindex hread hfields' hindex' hname hdigests
    have hget : fields'.get "instance_index" (Metadata.readIndex d') = .ok l.index := by
      rw [Fields.get, hindex']
      exact hsame _ (readIndex_of_readListed hfields hread hindex)
    refine ⟨_, Metadata.readInstance_of_fields hfields' hname hget hdigests, rfl, ?_⟩
    intro directory deployment listed k hblank hplace
    obtain ⟨instances, hinstances, hids⟩ := directory.hosts_ids deployment 0 hblank
    refine ⟨instances, hinstances, ?_⟩
    rw [← List.getElem?_map, hids, List.getElem?_map, hplace]
    rfl

/-- An index that is written in base 16 is the same number in an inventory and in a record. -/
theorem index_alike_hexadecimal :
    let plain (text : String) : Node := .scalar ⟨none, .plain, text⟩
    let d : Document := ⟨none, []⟩
    let entry : Node := .mapping [(plain "name", plain "redis"), (plain "index", plain "0x10"),
      (plain "host", plain "10.0.0.5")]
    let record : Node := .mapping [(plain "instance_name", plain "redis"),
      (plain "instance_index", plain "0x10")]
    let l : Listed := ⟨"redis", "16", none, "10.0.0.5", 22⟩
    d.scalar (plain "0x10") = .ok ⟨none, .plain, "0x10"⟩ ∧ readListed d entry = .ok l ∧
      ∃ r, Metadata.readInstance d record = .ok r ∧
        ∀ directory : Directory, ∃ i, directory.hosts "redis" 0 [l] = .ok [i] ∧
          i.id = .indexed "redis" "16" ∧ i.id = r.identifier := by
  intro plain d entry record l
  have hscalar : d.scalar (plain "0x10") = .ok ⟨none, .plain, "0x10"⟩ := rfl
  have hlisted : readListed d entry = .ok l := by rfl
  obtain ⟨-, -, hrecord⟩ := index_alike hscalar hscalar
  obtain ⟨r, hread, -, hreached⟩ := hrecord entry record _ _ _ _ rfl rfl hlisted rfl rfl rfl rfl
  refine ⟨hscalar, hlisted, r, hread, fun directory => ?_⟩
  have hblank : ∀ other ∈ [l], blank other.index = false := by decide
  obtain ⟨instances, hinstances, hid⟩ := hreached directory "redis" [l] 0 hblank rfl
  have hone : directory.hosts "redis" 0 [l] = .ok [(directory.hostOf 0 l).toInstance] := by
    rw [Directory.hosts, if_neg (by decide)]
    rfl
  obtain rfl := Except.ok.inj (hone.symm.trans hinstances)
  exact ⟨_, hone, rfl, Option.some.inj hid⟩

end Inventory

end DeploymentBackup
