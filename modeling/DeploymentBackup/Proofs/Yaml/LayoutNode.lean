import DeploymentBackup.Proofs.Yaml.LayoutTokens
import DeploymentBackup.Yaml.Read

namespace DeploymentBackup.Yaml

/-!
# Reading back a written document

The tokens of a layout build its tree: every text is a scalar with this text, in the style
that was chosen for it, and entries and items keep their order. A list right below its key
is complete only when a token other than a dash follows.

* `Layout.node` — the tree of a layout.
* `takeAll_value`, `takeAll_beside`, `takeAll_entries`, `takeAll_items` — the parts of a tree.
* `parse_print` — a document reads back as its layout.
-/

/-- The scalar that a text is written as. -/
def textNode (text : String) : Node :=
  .scalar ⟨none, (Form.of text).style, text⟩

mutual

/-- The tree of a layout. -/
def Layout.node : Layout → Node
  | .text value => textNode value
  | .mapping entries => .mapping (entryNodes entries)
  | .list items => .sequence (itemNodes items)

/-- The trees of the entries of a mapping. -/
def entryNodes : List (String × Layout) → List (Node × Node)
  | [] => []
  | (key, value) :: rest => (textNode key, value.node) :: entryNodes rest

/-- The trees of the items of a list. -/
def itemNodes : List Layout → List Node
  | [] => []
  | item :: rest => item.node :: itemNodes rest

end

namespace Builder

/-! ### One token -/

/-- A builder with these collections open. -/
def withOpened (b : Builder) (expected : Expected) (opened : List (Option Nat × Opened)) :
    Builder :=
  { b with expected := expected, opened := opened }

theorem takeAll_cons {b b' : Builder} {t : Token} {ts : List Token} (h : b.take t = .ok b') :
    b.takeAll (t :: ts) = b'.takeAll ts := by
  rw [takeAll, h]

variable {b : Builder} {o : List (Option Nat × Opened)} {a : Option Nat} {ready : Bool}
  {place : Place}

/-- What was expected makes no difference once a node is complete. -/
theorem put_withOpened {expected expected' : Expected} {node : Node} :
    (b.withOpened expected o).put a node = (b.withOpened expected' o).put a node := by
  cases o <;> rfl

theorem take_scalar {text : String} :
    (b.withOpened (.node place .none) o).take (.scalar (Form.of text).style text) =
      .ok ((b.withOpened (.node place .none) o).put none (textNode text)) := by
  cases place <;> rfl

theorem take_openMapping :
    (b.withOpened (.node place .none) o).take .openMapping =
      .ok (b.withOpened (.entry true) ((none, .flowMapping [] none false) :: o)) := by
  cases place <;> rfl

theorem take_openSequence :
    (b.withOpened (.node place .none) o).take .openSequence =
      .ok (b.withOpened (.entry true) ((none, .flowSequence [] none) :: o)) := by
  cases place <;> rfl

theorem take_closeMapping :
    (b.withOpened (.entry true) ((a, .flowMapping [] none false) :: o)).take .closeMapping =
      .ok ((b.withOpened (.entry true) o).put a (.mapping [])) :=
  rfl

theorem take_closeSequence :
    (b.withOpened (.entry true) ((a, .flowSequence [] none) :: o)).take .closeSequence =
      .ok ((b.withOpened (.entry true) o).put a (.sequence [])) :=
  rfl

theorem take_blockMapping (hplace : place.block = true) :
    (b.withOpened (.node place .none) o).take .blockMapping =
      .ok (b.withOpened (.entry true) ((none, .blockMapping [] none) :: o)) := by
  cases place <;> first | rfl | simp [Place.block] at hplace

theorem take_blockSequence (hplace : place.block = true) :
    (b.withOpened (.node place .none) o).take .blockSequence =
      .ok (b.withOpened (.entry true) ((none, .blockSequence []) :: o)) := by
  cases place <;> first | rfl | simp [Place.block] at hplace

/-- A sequence that is not indented has no token but that of its first item. -/
theorem take_flushItem :
    (b.withOpened (.node .blockValue .none) o).take .item =
      .ok (b.withOpened (.node .flushItem .none) ((none, .flushSequence []) :: o)) :=
  rfl

theorem take_nextFlushItem {ns : List Node} :
    (b.withOpened (.entry ready) ((none, .flushSequence ns) :: o)).take .item =
      .ok (b.withOpened (.node .flushItem .none) ((none, .flushSequence ns) :: o)) :=
  rfl

theorem take_key {es : List (Node × Node)} :
    (b.withOpened (.entry ready) ((a, .blockMapping es none) :: o)).take .key =
      .ok (b.withOpened (.node .blockKey .none) ((a, .blockMapping es none) :: o)) :=
  rfl

theorem take_value {es : List (Node × Node)} {key : Node} :
    (b.withOpened (.entry ready) ((a, .blockMapping es (some key)) :: o)).take .value =
      .ok (b.withOpened (.node .blockValue .none) ((a, .blockMapping es (some key)) :: o)) :=
  rfl

theorem take_item {ns : List Node} :
    (b.withOpened (.entry ready) ((a, .blockSequence ns) :: o)).take .item =
      .ok (b.withOpened (.node .item .none) ((a, .blockSequence ns) :: o)) :=
  rfl

theorem take_congr {b b' : Builder} {t : Token}
    (h : fillValue t (endFlush t (fillNode t b)) = fillValue t (endFlush t (fillNode t b'))) :
    b.take t = b'.take t := by
  unfold take
  rw [h]

/-- A token other than a dash ends a sequence that is not indented, which is the value of a
    key. -/
theorem take_endFlush {ns : List Node} {es : List (Node × Node)} {key : Node} {t : Token}
    (ht : t ≠ .item) :
    (b.withOpened (.entry ready)
        ((none, .flushSequence ns) :: (a, .blockMapping es (some key)) :: o)).take t =
      ((b.withOpened (.entry ready) ((a, .blockMapping es (some key)) :: o)).put none
        (.sequence ns.reverse)).take t := by
  refine take_congr (congrArg (fillValue t) ?_)
  exact if_neg ht

theorem take_blockEnd_mapping {es : List (Node × Node)} :
    (b.withOpened (.entry ready) ((a, .blockMapping es none) :: o)).take .blockEnd =
      .ok ((b.withOpened (.entry ready) o).put a (.mapping es.reverse)) :=
  rfl

theorem take_blockEnd_sequence {ns : List Node} :
    (b.withOpened (.entry ready) ((a, .blockSequence ns) :: o)).take .blockEnd =
      .ok ((b.withOpened (.entry ready) o).put a (.sequence ns.reverse)) :=
  rfl

/-! ### Layouts -/

/-- What follows the value of a key is another key, or the end of the mapping. -/
theorem exists_entryTokens (entries : List (String × Layout)) (ts : List Token) :
    ∃ t more, entryTokens entries ++ .blockEnd :: ts = t :: more ∧ t ≠ .item := by
  cases entries with
  | nil => exact ⟨.blockEnd, ts, rfl, by decide⟩
  | cons entry rest => exact ⟨.key, _, rfl, by decide⟩

mutual

/-- The tokens of a value build its node, whatever follows that does not go on with it. -/
theorem takeAll_value (layout : Layout) {b : Builder} {o : List (Option Nat × Opened)}
    {a : Option Nat} {es : List (Node × Node)} {key : Node} (flush : Bool) {t : Token}
    {ts : List Token} (ht : t ≠ .item) :
    (b.withOpened (.node .blockValue .none) ((a, .blockMapping es (some key)) :: o)).takeAll
        (nodeTokens flush layout ++ t :: ts) =
      (b.withOpened (.entry false)
        ((a, .blockMapping ((key, layout.node) :: es) none) :: o)).takeAll (t :: ts) := by
  match layout, flush with
  | .list (item :: items), true =>
    have htokens : nodeTokens true (.list (item :: items)) ++ t :: ts =
        .item :: (nodeTokens false item ++ (itemTokens items ++ t :: ts)) := by
      rw [nodeTokens] <;> simp [itemTokens]
    rw [htokens, takeAll_cons take_flushItem, takeAll_beside item rfl]
    exact takeAll_flushItems items ht
  | .list [], true => exact takeAll_beside (.list []) rfl
  | .text value, true => exact takeAll_beside (.text value) rfl
  | .mapping [], true => exact takeAll_beside (.mapping []) rfl
  | .mapping (entry :: entries), true => exact takeAll_beside (.mapping (entry :: entries)) rfl
  | layout, false => exact takeAll_beside layout rfl

/-- The tokens of an indented layout build its node. -/
theorem takeAll_beside (layout : Layout) {b : Builder} {o : List (Option Nat × Opened)}
    {place : Place} (hplace : place.block = true) {ts : List Token} :
    (b.withOpened (.node place .none) o).takeAll (nodeTokens false layout ++ ts) =
      ((b.withOpened (.node place .none) o).put none layout.node).takeAll ts := by
  match layout with
  | .text value =>
    rw [nodeTokens, List.singleton_append, takeAll_cons take_scalar, Layout.node]
  -- What holds nothing is opened and closed by two tokens of its own.
  | .mapping [] =>
    have htokens : nodeTokens false (.mapping []) ++ ts = .openMapping :: .closeMapping :: ts := rfl
    rw [htokens, takeAll_cons take_openMapping, takeAll_cons take_closeMapping, put_withOpened]
    rfl
  -- What stands in lines of its own is closed by the end of its block.
  | .mapping (entry :: entries) =>
    have htokens : nodeTokens false (.mapping (entry :: entries)) ++ ts =
        .blockMapping :: (entryTokens (entry :: entries) ++ .blockEnd :: ts) := by
      rw [nodeTokens] <;> simp
    rw [htokens, takeAll_cons (take_blockMapping hplace), takeAll_entries (entry :: entries),
      put_withOpened, Layout.node]
    rfl
  | .list [] =>
    have htokens : nodeTokens false (.list []) ++ ts = .openSequence :: .closeSequence :: ts := rfl
    rw [htokens, takeAll_cons take_openSequence, takeAll_cons take_closeSequence, put_withOpened]
    rfl
  | .list (item :: items) =>
    have htokens : nodeTokens false (.list (item :: items)) ++ ts =
        .blockSequence :: (itemTokens (item :: items) ++ .blockEnd :: ts) := by
      rw [nodeTokens] <;> simp
    rw [htokens, takeAll_cons (take_blockSequence hplace), takeAll_items (item :: items),
      put_withOpened, Layout.node]
    rfl

/-- The tokens of entries go into the mapping that is open, which then ends. -/
theorem takeAll_entries (entries : List (String × Layout)) {b : Builder}
    {o : List (Option Nat × Opened)} {a : Option Nat} {ready : Bool} {es : List (Node × Node)}
    {ts : List Token} :
    (b.withOpened (.entry ready) ((a, .blockMapping es none) :: o)).takeAll
        (entryTokens entries ++ .blockEnd :: ts) =
      ((b.withOpened (.entry ready) o).put a
        (.mapping (es.reverse ++ entryNodes entries))).takeAll ts := by
  match entries with
  | [] =>
    rw [entryTokens, entryNodes, List.nil_append, List.append_nil,
      takeAll_cons take_blockEnd_mapping]
  | (key, value) :: rest =>
    -- Behind the value stands the next key or the end of the mapping, but no item.
    obtain ⟨t, more, hmore, ht⟩ := exists_entryTokens rest ts
    have htokens : entryTokens ((key, value) :: rest) ++ .blockEnd :: ts =
        .key :: .scalar (Form.of key).style key :: .value ::
          (nodeTokens (isSimpleKey key) value ++ t :: more) := by
      rw [entryTokens, ← hmore]
      simp
    have hkey : (b.withOpened (.node .blockKey .none) ((a, .blockMapping es none) :: o)).put none
        (textNode key) =
          b.withOpened (.entry false) ((a, .blockMapping es (some (textNode key))) :: o) := rfl
    rw [htokens, takeAll_cons take_key, takeAll_cons take_scalar, hkey, takeAll_cons take_value,
      takeAll_value value (isSimpleKey key) ht, ← hmore, takeAll_entries rest, put_withOpened,
      entryNodes, List.reverse_cons, List.append_assoc]
    rfl

/-- The tokens of items go into the sequence that is open, which then ends. -/
theorem takeAll_items (items : List Layout) {b : Builder} {o : List (Option Nat × Opened)}
    {a : Option Nat} {ready : Bool} {ns : List Node} {ts : List Token} :
    (b.withOpened (.entry ready) ((a, .blockSequence ns) :: o)).takeAll
        (itemTokens items ++ .blockEnd :: ts) =
      ((b.withOpened (.entry ready) o).put a
        (.sequence (ns.reverse ++ itemNodes items))).takeAll ts := by
  match items with
  | [] =>
    rw [itemTokens, itemNodes, List.nil_append, List.append_nil,
      takeAll_cons take_blockEnd_sequence]
  | item :: rest =>
    have htokens : itemTokens (item :: rest) ++ .blockEnd :: ts =
        .item :: (nodeTokens false item ++ (itemTokens rest ++ .blockEnd :: ts)) := by
      rw [itemTokens]
      simp
    have hput : (b.withOpened (.node .item .none) ((a, .blockSequence ns) :: o)).put none
        item.node = b.withOpened (.entry false) ((a, .blockSequence (item.node :: ns)) :: o) := rfl
    rw [htokens, takeAll_cons take_item, takeAll_beside item rfl, hput, takeAll_items rest,
      put_withOpened, itemNodes, List.reverse_cons, List.append_assoc]
    rfl

/-- The tokens of items go into the sequence that is not indented, which ends with the next
    token. -/
theorem takeAll_flushItems (items : List Layout) {b : Builder} {o : List (Option Nat × Opened)}
    {a : Option Nat} {ready : Bool} {ns : List Node} {es : List (Node × Node)} {key : Node}
    {t : Token} {ts : List Token} (ht : t ≠ .item) :
    (b.withOpened (.entry ready)
        ((none, .flushSequence ns) :: (a, .blockMapping es (some key)) :: o)).takeAll
        (itemTokens items ++ t :: ts) =
      (b.withOpened (.entry false) ((a, .blockMapping
        ((key, .sequence (ns.reverse ++ itemNodes items)) :: es) none) :: o)).takeAll
        (t :: ts) := by
  match items with
  -- A list at the column of its key has no end of its own: any other token closes it.
  | [] =>
    rw [itemTokens, itemNodes, List.nil_append, List.append_nil, takeAll, takeAll,
      take_endFlush ht]
    rfl
  | item :: rest =>
    have htokens : itemTokens (item :: rest) ++ t :: ts =
        .item :: (nodeTokens false item ++ (itemTokens rest ++ t :: ts)) := by
      rw [itemTokens]
      simp
    have hput : (b.withOpened (.node .flushItem .none)
        ((none, .flushSequence ns) :: (a, .blockMapping es (some key)) :: o)).put none item.node =
          b.withOpened (.entry false)
            ((none, .flushSequence (item.node :: ns)) :: (a, .blockMapping es (some key)) :: o) :=
      rfl
    rw [htokens, takeAll_cons take_nextFlushItem, takeAll_beside item rfl, hput,
      takeAll_flushItems rest ht, itemNodes, List.reverse_cons, List.append_assoc]
    rfl

end

end Builder

/-- A document without directives starts with its root. -/
theorem takeAll_start (layout : Layout) (ts : List Token) :
    Builder.start.takeAll (nodeTokens false layout ++ ts) =
      (Builder.start.withOpened (.node (.root false) .none) []).takeAll
        (nodeTokens false layout ++ ts) := by
  match layout with
  | .text value => rfl
  | .mapping [] => rfl
  | .mapping (entry :: entries) =>
    rw [nodeTokens]
    · rfl
    · simp
  | .list [] => rfl
  | .list (item :: items) =>
    rw [nodeTokens]
    · rfl
    · simp

/-- The document of the tokens of a layout is its tree. -/
theorem documentOf_nodeTokens (layout : Layout) :
    documentOf (nodeTokens false layout ++ [.streamEnd]) = .ok ⟨some layout.node, []⟩ := by
  rw [documentOf, takeAll_start, Builder.takeAll_beside layout rfl]
  rfl

/-- A written collection reads back as its tree. -/
theorem parse_print {layout : Layout} (h : ∀ text, layout ≠ .text text) :
    parse (print layout) = .ok ⟨some layout.node, []⟩ := by
  rw [parse, tokens_print h]
  exact documentOf_nodeTokens layout

end DeploymentBackup.Yaml
