import DeploymentBackup.Metadata.Written
import DeploymentBackup.Proofs.Yaml.LayoutNode

namespace DeploymentBackup

open Yaml

/-!
# The written record reads back

Every record comes back from its text as it was: names and indexes that look like numbers,
truth values or nothing are quoted and stay texts, missing times stay missing, and digests
keep their order.

* `text_textNode`, `optionalText_textNode`, `readIndex_textNode` — a written text.
* `readDigests_node`, `readInstance_node`, `readBlob_node` — the parts of a record.
* `Metadata.parse_print` — the record.
-/

/-! ### Texts -/

namespace Yaml

theorem meaningOf_of_plain {text : String} (h : Form.of text = .plain) :
    meaningOf text = .text text := by
  have hquotes := (Form.of_plain h).2.2
  unfold needsQuotes at hquotes
  split at hquotes
  · rename_i value hmeaning
    have hvalue : value = text := by
      unfold meaningOf at hmeaning
      split at hmeaning
      · cases hmeaning
      · split at hmeaning
        · cases hmeaning
        · cases hmeaning
        · split at hmeaning
          · cases hmeaning
          · cases hmeaning
            rfl
    rw [hmeaning, hvalue]
  · cases hquotes

theorem not_null_of_plain {text : String} (h : Form.of text = .plain) :
    (text.isEmpty || isNull text) = false := by
  have hmeaning := meaningOf_of_plain h
  rw [← Bool.not_eq_true]
  intro hnull
  rw [meaningOf, if_pos hnull] at hmeaning
  cases hmeaning

theorem style_eq_plain {text : String} : (Form.of text).style = .plain ↔ Form.of text = .plain := by
  cases Form.of text <;> simp [Form.style]

variable (d : Document) (value : String)

@[simp] theorem scalar_textNode :
    d.scalar (textNode value) = .ok ⟨none, (Form.of value).style, value⟩ :=
  rfl

@[simp] theorem text_textNode : d.text (textNode value) = .ok value :=
  rfl

/-- A text is not taken for nothing. -/
@[simp] theorem optionalText_textNode : d.optionalText (textNode value) = .ok (some value) := by
  rw [Document.optionalText, scalar_textNode]
  by_cases h : Form.of value = .plain
  · simp [h, Form.style, not_null_of_plain h]
  · have hstyle := mt style_eq_plain.mp h
    simp [hstyle]

/-- A text is not taken for a number. -/
@[simp] theorem readIndex_textNode : Metadata.readIndex d (textNode value) = .ok value := by
  have hmeaning : (d.scalar (textNode value)).bind Scalar.meaning = .ok (.text value) := by
    show Scalar.meaning ⟨none, (Form.of value).style, value⟩ = _
    by_cases h : Form.of value = .plain
    · simp [Scalar.meaning, h, Form.style, meaningOf_of_plain h]
    · have hstyle := mt style_eq_plain.mp h
      simp [Scalar.meaning, hstyle]
  rw [Metadata.readIndex, hmeaning]

end Yaml

/-! ### Digests -/

namespace Digests

theorem put_last {path digest : String} {entries : List (String × String)}
    (h : ∀ e ∈ entries, e.1 < path) : put path digest entries = entries ++ [(path, digest)] := by
  induction entries with
  | nil => rfl
  | cons e rest ih =>
    have he : e.1 < path := h e List.mem_cons_self
    have hne : path ≠ e.1 := by
      intro heq
      rw [heq] at he
      exact String.lt_irrefl _ he
    rw [put, if_neg hne, if_neg (String.lt_asymm he),
      ih fun e' he' => h e' (List.mem_cons_of_mem _ he')]
    rfl

/-- Entries in ascending order are put where they stand. -/
theorem foldl_put {done entries : List (String × String)}
    (h : (done ++ entries).Pairwise (·.1 < ·.1)) :
    entries.foldl (fun table (path, digest) => put path digest table) done = done ++ entries := by
  induction entries generalizing done with
  | nil => simp
  | cons e rest ih =>
    obtain ⟨path, digest⟩ := e
    have hlast : ∀ e' ∈ done, e'.1 < path := by
      intro e' he'
      exact (List.pairwise_append.mp h).2.2 e' he' _ List.mem_cons_self
    show rest.foldl _ (put path digest done) = _
    rw [put_last hlast, ih (by simpa using h)]
    simp

theorem foldl_put_nil (d : Digests) :
    d.entries.foldl (fun table (path, digest) => put path digest table) [] = d.entries :=
  foldl_put d.sorted

theorem entries_foldl_insert {d : Digests} {entries : List (String × String)}
    (h : ∀ e ∈ entries, bare e.1 = e.1) :
    (entries.foldl (fun d (path, digest) => d.insert path digest) d).entries =
      entries.foldl (fun table (path, digest) => put path digest table) d.entries := by
  induction entries generalizing d with
  | nil => rfl
  | cons e rest ih =>
    rw [List.foldl_cons, List.foldl_cons, ih fun e' he' => h e' (List.mem_cons_of_mem _ he')]
    show rest.foldl _ (put (bare e.1) e.2 d.entries) = _
    rw [h e List.mem_cons_self]

theorem ext {d e : Digests} (h : d.entries = e.entries) : d = e := by
  cases d
  cases e
  simp_all

/-- Digests are made of their entries. -/
theorem ofList_entries (d : Digests) : ofList d.entries = d := by
  refine ext ?_
  rw [ofList, entries_foldl_insert d.bare_keys]
  exact foldl_put_nil d

end Digests

namespace Metadata

/-! ### The parts of a record -/

variable (d : Document)

theorem texts_entryNodes (entries : List (String × String)) :
    d.texts (.mapping (entryNodes (entries.map fun (path, digest) => (path, .text digest)))) =
      .ok entries := by
  show List.mapM _ (entryNodes _) = _
  induction entries with
  | nil => rfl
  | cons e rest ih =>
    rw [List.map_cons, entryNodes, List.mapM_cons, Layout.node]
    simp only [text_textNode, ih]
    rfl

theorem readDigests_node (digests : Digests) :
    readDigests d (digestsLayout digests).node = .ok digests := by
  rw [readDigests, digestsLayout, Layout.node, texts_entryNodes]
  show Except.ok (Digests.ofList _) = _
  rw [Digests.foldl_put_nil, Digests.ofList_entries]

/-- The fields of a record whose keys are all known and distinct. -/
theorem ofEntries_entryNodes (known : List String) (entries : List (String × Layout))
    (hknown : ∀ e ∈ entries, known.contains e.1 = true) (hnodup : (entries.map (·.1)).Nodup) :
    Fields.ofEntries d known (entryNodes entries) =
      .ok (entries.map fun e => (e.1, e.2.node)) := by
  induction entries with
  | nil => rfl
  | cons e rest ih =>
    obtain ⟨key, value⟩ := e
    have hkey := hknown _ List.mem_cons_self
    rw [List.map_cons, List.nodup_cons] at hnodup
    have hrest := ih (fun e he => hknown e (List.mem_cons_of_mem _ he)) hnodup.2
    have hnew : (rest.map fun e => (e.1, e.2.node)).lookup key = none := by
      rw [List.lookup_eq_none_iff]
      intro e he
      obtain ⟨e', he', rfl⟩ := List.mem_map.mp he
      have hne : key ≠ e'.1 := fun heq => hnodup.1 (List.mem_map.mpr ⟨e', he', heq.symm⟩)
      simpa using hne
    simp only [entryNodes, Fields.ofEntries, text_textNode, hrest, hkey, hnew]
    rfl

theorem readInstance_node (r : InstanceRecord) :
    readInstance d (instanceLayout r).node = .ok r := by
  have hentries : d.entries (instanceLayout r).node = .ok (entryNodes
      [("instance_name", .text r.name), ("instance_index", .text r.index),
        ("checksums", digestsLayout r.digests)]) := rfl
  have hfields := ofEntries_entryNodes d ["instance_name", "instance_index", "checksums"]
    [("instance_name", .text r.name), ("instance_index", .text r.index),
      ("checksums", digestsLayout r.digests)] (by simp) (by simp)
  simp only [readInstance, hentries, hfields, bind, Except.bind]
  simp [Fields.get, Fields.getD, List.lookup_cons, Layout.node, readDigests_node, pure, Except.pure]

theorem readBlob_node (r : BlobRecord) : readBlob d (blobLayout r).node = .ok r := by
  have hentries : d.entries (blobLayout r).node = .ok (entryNodes
      [("blob_name", .text r.name), ("checksums", digestsLayout r.digests)]) := rfl
  have hfields := ofEntries_entryNodes d ["blob_name", "checksums"]
    [("blob_name", .text r.name), ("checksums", digestsLayout r.digests)] (by simp) (by simp)
  simp only [readBlob, hentries, hfields, bind, Except.bind]
  simp [Fields.get, Fields.getD, List.lookup_cons, Layout.node, readDigests_node, pure, Except.pure]

/-- A time that is missing is not written, and stays missing. -/
theorem readActivity_node (startTime finishTime : Option String) :
    readActivity d (Layout.node (.mapping
      (optionalField "start_time" startTime ++ optionalField "finish_time" finishTime))) =
        .ok (startTime, finishTime) := by
  have hentries : d.entries (Layout.node (.mapping
      (optionalField "start_time" startTime ++ optionalField "finish_time" finishTime))) =
        .ok (entryNodes
          (optionalField "start_time" startTime ++ optionalField "finish_time" finishTime)) := rfl
  have hfields := ofEntries_entryNodes d ["start_time", "finish_time"]
    (optionalField "start_time" startTime ++ optionalField "finish_time" finishTime)
    (by cases startTime <;> cases finishTime <;> simp [optionalField])
    (by cases startTime <;> cases finishTime <;> simp [optionalField])
  simp only [readActivity, hentries, hfields, bind, Except.bind]
  cases startTime <;> cases finishTime <;>
    simp [optionalField, Fields.getD, List.lookup_cons, Layout.node, pure, Except.pure]

theorem list_itemNodes {α : Type} {read : Node → Except Fault α} {write : α → Layout}
    (h : ∀ a, read (write a).node = .ok a) (as : List α) :
    d.list read (Layout.node (.list (as.map write))) = .ok as := by
  show List.mapM read (itemNodes _) = _
  induction as with
  | nil => rfl
  | cons a as ih =>
    rw [List.map_cons, itemNodes, List.mapM_cons, h a, ih]
    rfl

/-- A record comes back from its document. -/
theorem ofDocument_node (m : Metadata) : ofDocument ⟨some m.layout.node, []⟩ = .ok m := by
  let d : Document := ⟨some m.layout.node, []⟩
  let activity : Layout := .mapping
    (optionalField "start_time" m.startTime ++ optionalField "finish_time" m.finishTime)
  let instances : Layout := .list (m.instances.map instanceLayout)
  let blobs : Layout := .list (m.blobs.map blobLayout)
  have hentries : d.rootEntries = .ok (entryNodes
      [("backup_activity", activity), ("instances", instances), ("blobs", blobs)]) := rfl
  have hfields := ofEntries_entryNodes d ["backup_activity", "instances", "blobs"]
    [("backup_activity", activity), ("instances", instances), ("blobs", blobs)]
    (by simp) (by simp)
  have hactivity : readActivity d activity.node = .ok (m.startTime, m.finishTime) :=
    readActivity_node d _ _
  have hinstances : d.list (readInstance d) instances.node = .ok m.instances :=
    list_itemNodes d (readInstance_node d) _
  have hblobs : d.list (readBlob d) blobs.node = .ok m.blobs :=
    list_itemNodes d (readBlob_node d) _
  show ofDocument d = _
  simp only [ofDocument, hentries, hfields, bind, Except.bind]
  simp [Fields.getD, List.lookup_cons, hactivity, hinstances, hblobs, pure, Except.pure]

/-- A record comes back from its text. -/
theorem parse_print (m : Metadata) : parse m.print = .ok m := by
  have hdocument : Yaml.parse m.print = .ok ⟨some m.layout.node, []⟩ :=
    Yaml.parse_print (by intro text h; cases h)
  rw [parse, hdocument]
  exact ofDocument_node m

end Metadata

end DeploymentBackup
