import StackTemplate.Value.Path

/-!
# Parts of a document

The parts of a value are the value itself and the parts of its items and
entries, at any depth. What stands inside a list or a mapping is less deep than
the list or mapping, which is the induction that walks over documents need.
-/

namespace StackTemplate.Value

mutual

/-- A value with all that stands inside it. -/
def parts : Value → List Value
  | .array items => .array items :: itemParts items
  | .object entries => .object entries :: entryParts entries
  | scalar => [scalar]

/-- All that stands inside items, the items included. -/
def itemParts : List Value → List Value
  | [] => []
  | item :: items => parts item ++ itemParts items

/-- All that stands inside the values of entries, these included. -/
def entryParts : List (String × Value) → List Value
  | [] => []
  | (_, value) :: entries => parts value ++ entryParts entries

end

/-- A value is a part of itself. -/
theorem mem_parts_self (value : Value) : value ∈ value.parts := by
  cases value <;> simp [parts]

/-- The parts of items are those of each item. -/
theorem mem_itemParts {part : Value} {items : List Value} :
    part ∈ itemParts items ↔ ∃ item ∈ items, part ∈ item.parts := by
  induction items with
  | nil => simp [itemParts]
  | cons item items ih => simp [itemParts, ih]

/-- The parts of entries are those of each entry's value. -/
theorem mem_entryParts {part : Value} {entries : List (String × Value)} :
    part ∈ entryParts entries ↔ ∃ entry ∈ entries, part ∈ entry.2.parts := by
  induction entries with
  | nil => simp [entryParts]
  | cons entry entries ih => simp [entryParts, ih]

/-- The parts of a list. -/
theorem mem_parts_array {part : Value} {items : List Value} :
    part ∈ (array items).parts ↔ part = array items ∨ ∃ item ∈ items, part ∈ item.parts := by
  rw [parts, List.mem_cons, mem_itemParts]

/-- The parts of a mapping. -/
theorem mem_parts_object {part : Value} {entries : List (String × Value)} :
    part ∈ (object entries).parts ↔
      part = object entries ∨ ∃ entry ∈ entries, part ∈ entry.2.parts := by
  rw [parts, List.mem_cons, mem_entryParts]

/-- An item is no deeper than all items. -/
theorem depth_le_itemsDepth {item : Value} {items : List Value} (h : item ∈ items) :
    item.depth ≤ itemsDepth items := by
  induction items with
  | nil => cases h
  | cons first items ih =>
    rw [itemsDepth]
    rcases List.mem_cons.mp h with rfl | hlater
    · exact Nat.le_max_left _ _
    · have hrest := ih hlater
      omega

/-- The value of an entry is no deeper than all entries. -/
theorem depth_le_entriesDepth {key : String} {value : Value} {entries : List (String × Value)}
    (h : (key, value) ∈ entries) : value.depth ≤ entriesDepth entries := by
  induction entries with
  | nil => cases h
  | cons first entries ih =>
    rw [entriesDepth]
    rcases List.mem_cons.mp h with rfl | hlater
    · exact Nat.le_max_left _ _
    · have hrest := ih hlater
      omega

/-- An item is less deep than its list. -/
theorem depth_lt_array {item : Value} {items : List Value} (h : item ∈ items) :
    item.depth < (array items).depth := by
  rw [depth]
  exact Nat.lt_succ_of_le (depth_le_itemsDepth h)

/-- The value of an entry is less deep than its mapping. -/
theorem depth_lt_object {key : String} {value : Value} {entries : List (String × Value)}
    (h : (key, value) ∈ entries) : value.depth < (object entries).depth := by
  rw [depth]
  exact Nat.lt_succ_of_le (depth_le_entriesDepth h)

/-- What holds of a value as soon as it holds of all less deep values holds of
every value. -/
theorem depthInduction {motive : Value → Prop}
    (step : ∀ value : Value, (∀ part : Value, part.depth < value.depth → motive part) →
      motive value) (value : Value) : motive value :=
  (measure depth).wf.induction value step

/-- Parts of parts are parts. -/
theorem parts_subset {part value : Value} (h : part ∈ value.parts) :
    part.parts ⊆ value.parts := by
  induction value using depthInduction with
  | step value ih =>
    intro inner hinner
    cases value with
    | array items =>
      rcases mem_parts_array.mp h with rfl | ⟨item, hitem, hpart⟩
      · exact hinner
      · have hlater := ih item (depth_lt_array hitem) hpart hinner
        exact mem_parts_array.mpr (.inr ⟨item, hitem, hlater⟩)
    | object entries =>
      rcases mem_parts_object.mp h with rfl | ⟨entry, hentry, hpart⟩
      · exact hinner
      · have hlater := ih entry.2 (depth_lt_object hentry) hpart hinner
        exact mem_parts_object.mpr (.inr ⟨entry, hentry, hlater⟩)
    | _ =>
      rw [List.mem_singleton.mp h] at hinner
      exact hinner

/-- A part stands properly inside a value if it is less deep. -/
structure Within (part value : Value) : Prop where
  /-- It is a part. -/
  mem_parts : part ∈ value.parts
  /-- It is not the value itself. -/
  depth_lt : part.depth < value.depth

namespace Within

/-- An item stands inside its list. -/
theorem item {item : Value} {items : List Value} (h : item ∈ items) :
    item.Within (array items) where
  mem_parts := mem_parts_array.mpr (.inr ⟨item, h, item.mem_parts_self⟩)
  depth_lt := depth_lt_array h

/-- The value of an entry stands inside its mapping. -/
theorem entry {key : String} {value : Value} {entries : List (String × Value)}
    (h : (key, value) ∈ entries) : value.Within (object entries) where
  mem_parts := mem_parts_object.mpr (.inr ⟨_, h, value.mem_parts_self⟩)
  depth_lt := depth_lt_object h

/-- What stands inside something inside a value stands inside the value. -/
theorem trans {part middle value : Value} (h : part.Within middle)
    (hmiddle : middle.Within value) : part.Within value where
  mem_parts := parts_subset hmiddle.mem_parts h.mem_parts
  depth_lt := Nat.lt_trans h.depth_lt hmiddle.depth_lt

/-- An argument of a call stands inside the call. -/
theorem argument {key : String} {arg : Value} {args : List Value} (h : arg ∈ args) :
    arg.Within (object [(key, array args)]) :=
  (item h).trans (.entry List.mem_cons_self)

end Within

/-- What holds of a value as soon as it holds of all that stands inside it holds
of every value. -/
theorem partInduction {motive : Value → Prop}
    (step : ∀ value : Value, (∀ part : Value, part.Within value → motive part) → motive value)
    (value : Value) : motive value :=
  depthInduction (fun value ih => step value fun part hpart => ih part hpart.depth_lt) value

/-- Items of well-formed lists are well-formed. -/
theorem wellFormed_of_mem_items {item : Value} {items : List Value}
    (h : itemsWellFormed items) (hitem : item ∈ items) : item.WellFormed := by
  induction items with
  | nil => cases hitem
  | cons first items ih =>
    rw [itemsWellFormed] at h
    rcases List.mem_cons.mp hitem with rfl | hlater
    · exact h.1
    · exact ih h.2 hlater

/-- Values of well-formed entries are well-formed. -/
theorem wellFormed_of_mem_entries {entry : String × Value} {entries : List (String × Value)}
    (h : entriesWellFormed entries) (hentry : entry ∈ entries) : entry.2.WellFormed := by
  induction entries with
  | nil => cases hentry
  | cons first entries ih =>
    rw [entriesWellFormed] at h
    rcases List.mem_cons.mp hentry with rfl | hlater
    · exact h.1
    · exact ih h.2 hlater

/-- Parts of well-formed values are well-formed. -/
theorem WellFormed.part {part value : Value} (hwell : value.WellFormed)
    (hpart : part ∈ value.parts) : part.WellFormed := by
  induction value using partInduction with
  | step value ih =>
    cases value with
    | array items =>
      rcases mem_parts_array.mp hpart with rfl | ⟨item, hitem, hinside⟩
      · exact hwell
      · exact ih item (.item hitem) (wellFormed_of_mem_items hwell hitem) hinside
    | object entries =>
      rcases mem_parts_object.mp hpart with rfl | ⟨entry, hentry, hinside⟩
      · exact hwell
      · exact ih entry.2 (.entry hentry) (wellFormed_of_mem_entries hwell.2 hentry) hinside
    | _ =>
      rw [List.mem_singleton.mp hpart]
      exact hwell

/-- The parts that one step leads to, with the step. -/
def children : Value → List (Segment × Value)
  | .array items => items.zipIdx.map fun entry => (.index entry.2, entry.1)
  | .object entries => entries.map fun entry => (.key entry.1, entry.2)
  | _ => []

section Children

variable {value part : Value} {segment : Segment}

/-- A part that one step leads to is an item or the value of an entry. -/
theorem cases_of_mem_children (h : (segment, part) ∈ value.children) :
    (∃ items, value = array items ∧ part ∈ items) ∨
      ∃ entries key, value = object entries ∧ (key, part) ∈ entries := by
  cases value with
  | array items =>
    obtain ⟨⟨item, position⟩, hitem, heq⟩ := List.mem_map.mp h
    cases heq
    exact .inl ⟨items, rfl, List.mem_of_getElem? (List.mem_zipIdx_iff_getElem?.mp hitem)⟩
  | object entries =>
    obtain ⟨⟨key, inner⟩, hentry, heq⟩ := List.mem_map.mp h
    cases heq
    exact .inr ⟨entries, key, rfl, hentry⟩
  | _ => cases h

/-- A part that one step leads to stands inside. -/
theorem Within.child (h : (segment, part) ∈ value.children) : part.Within value := by
  rcases cases_of_mem_children h with ⟨items, rfl, hitem⟩ | ⟨entries, key, rfl, hentry⟩
  · exact .item hitem
  · exact .entry hentry

/-- Parts of well-formed documents are well-formed. -/
theorem WellFormed.child (hwell : value.WellFormed) (h : (segment, part) ∈ value.children) :
    part.WellFormed :=
  hwell.part (Within.child h).mem_parts

/-- In a well-formed document, a step leads to every part listed with it. -/
theorem mem_children (hwell : value.WellFormed) :
    (segment, part) ∈ value.children ↔ value.step? segment = some part := by
  cases value with
  | array items =>
    cases segment with
    | index position =>
      simp only [children, step?, List.mem_map, Prod.exists, List.mem_zipIdx_iff_getElem?,
        Prod.mk.injEq, Segment.index.injEq]
      constructor
      · rintro ⟨item, place, hitem, rfl, rfl⟩
        exact hitem
      · exact fun hitem => ⟨part, position, hitem, rfl, rfl⟩
    | key name => simp [children, step?]
  | object entries =>
    cases segment with
    | index position => simp [children, step?]
    | key name =>
      have hget : (name, part) ∈ entries ↔ Entries.get? name entries = some part :=
        ⟨hwell.1.get?_of_mem, Entries.mem_of_get?⟩
      simp [children, step?, hget]
  | _ => simp [children, step?]

end Children

/-- A path with one more step. -/
theorem lookup_append_singleton (value : Value) (path : Path) (segment : Segment) :
    value.lookup (path ++ [segment]) = (value.lookup path).bind (·.step? segment) := by
  induction path generalizing value with
  | nil =>
    rw [List.nil_append, lookup, lookup, Option.bind_some]
    cases value.step? segment <;> rfl
  | cons first path ih =>
    rw [List.cons_append, lookup, lookup]
    cases value.step? first with
    | some part => exact ih part
    | none => rfl

end StackTemplate.Value
