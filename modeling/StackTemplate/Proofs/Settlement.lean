import StackTemplate.Proofs.Parts
import StackTemplate.Proofs.Shapes

/-!
# Settled shapes

A shape is settled if neither a ternary nor a reference to the absent value is
left in it. Flattening looks at a mapping before it looks at what is inside, so
a mapping that only becomes a ternary or such a reference by what it loses or
by what its parts turn into is left as it is. These are the only mappings that
keep a shape from being settled, and all of them are malformed to begin with.
-/

namespace StackTemplate

/-- A ternary is a mapping with a single entry. -/
theorem Ternary.eq_of_ofValue? {value : Value} {ternary : Ternary}
    (h : ofValue? value = some ternary) :
    value = .object [("Fn::If",
      .array [.string ternary.condition, ternary.whenTrue, ternary.whenFalse])] := by
  unfold ofValue? at h
  split at h
  · cases h
    rfl
  · cases h

namespace Value

/-- Only one mapping refers to the absent value. -/
theorem eq_of_isNoValue {value : Value} (h : value.isNoValue = true) :
    value = object [("Ref", string "AWS::NoValue")] := by
  unfold isNoValue at h
  split at h
  · next key name =>
    rw [Bool.and_eq_true, decide_eq_true_iff, decide_eq_true_iff] at h
    rw [h.1, h.2]
  · cases h

/-- A value that flattening would replace or remove: a ternary, or a reference
to the absent value. -/
def Pending (value : Value) : Prop :=
  (Ternary.ofValue? value).isSome = true ∨ value.isNoValue = true

instance (value : Value) : Decidable value.Pending := inferInstanceAs (Decidable (_ ∨ _))

/-- Nothing inside a value is pending. -/
def Settled (value : Value) : Prop := ∀ part ∈ value.parts, ¬part.Pending

instance (value : Value) : Decidable value.Settled :=
  inferInstanceAs (Decidable (∀ part ∈ value.parts, ¬part.Pending))

/-- The name that a mapping with a single text refers to. -/
def referredName? (value : Value) : Option String :=
  value.singleEntry?.bind fun entry => entry.2.string?

/-- A mapping that has the key of a ternary but is none, or that has the key of
a reference but does not refer to a name. -/
def Misshapen (value : Value) : Prop :=
  "Fn::If" ∈ Entries.keys (value.entries?.getD []) ∧ Ternary.ofValue? value = none ∨
    "Ref" ∈ Entries.keys (value.entries?.getD []) ∧ value.referredName? = none

instance (value : Value) : Decidable value.Misshapen := inferInstanceAs (Decidable (_ ∨ _))

/-- The parts of a value that matter under a scenario: of a ternary only those
of the branch that is selected, of what is absent none. -/
inductive Kept (scenario : Scenario) (part : Value) : Value → Prop where
  /-- The value itself. -/
  | self : Kept scenario part part
  /-- A part of the branch that is selected. -/
  | branch {value : Value} {ternary : Ternary} {truth : Bool}
      (hternary : Ternary.ofValue? value = some ternary)
      (htruth : scenario.get? ternary.condition = some truth)
      (h : Kept scenario part (ternary.branch truth)) : Kept scenario part value
  /-- A part of an item. -/
  | item {items : List Value} {item : Value} (hmem : item ∈ items)
      (h : Kept scenario part item) : Kept scenario part (.array items)
  /-- A part of an entry of a mapping that is not itself replaced or removed. -/
  | entry {entries : List (String × Value)} {entry : String × Value}
      (hplain : ¬(object entries).Pending) (hmem : entry ∈ entries)
      (h : Kept scenario part entry.2) : Kept scenario part (.object entries)

/-- The branches of a ternary stand inside it. -/
theorem within_branch {value : Value} {ternary : Ternary}
    (h : Ternary.ofValue? value = some ternary) (truth : Bool) :
    (ternary.branch truth).Within value := by
  rw [Ternary.eq_of_ofValue? h]
  refine Within.trans (.item ?_) (.entry List.mem_cons_self)
  cases truth <;> simp [Ternary.branch]

/-- Whatever matters under a scenario is a part. -/
theorem Kept.mem_parts {scenario : Scenario} {part value : Value}
    (h : part.Kept scenario value) : part ∈ value.parts := by
  induction h with
  | self => exact mem_parts_self _
  | branch hternary _ _ ih => exact parts_subset (within_branch hternary _).mem_parts ih
  | item hmem _ ih => exact mem_parts_array.mpr (.inr ⟨_, hmem, ih⟩)
  | entry _ hmem _ ih => exact mem_parts_object.mpr (.inr ⟨_, hmem, ih⟩)

/-- A scenario decides the conditions of all ternaries inside a value. -/
def DecidedBy (scenario : Scenario) (value : Value) : Prop :=
  ∀ name, value.Asks name → (scenario.get? name).isSome = true

section Shape

variable {scenario : Scenario}

/-- A ternary that is decided has the shape of the selected branch. -/
theorem under?_ternary {value : Value} {ternary : Ternary} {truth : Bool}
    (hternary : Ternary.ofValue? value = some ternary)
    (htruth : scenario.get? ternary.condition = some truth) :
    value.under? scenario = (ternary.branch truth).under? scenario := by
  rw [Ternary.eq_of_ofValue? hternary, under?, htruth]
  cases truth <;> rfl

/-- A mapping that is not pending keeps the entries that are present. -/
theorem under?_object {entries : List (String × Value)} (h : ¬(object entries).Pending) :
    (object entries).under? scenario = some (object (entriesUnder scenario entries)) := by
  rw [under?]
  · rintro condition whenTrue whenFalse rfl
    exact h (.inl rfl)
  · rintro rfl
    exact h (.inr rfl)

/-- A list keeps the items that are present. -/
theorem under?_array (items : List Value) :
    (array items).under? scenario = some (array (itemsUnder scenario items)) := by
  rw [under?]

/-- The items that are present are the shapes of the items. -/
theorem itemsUnder_eq_filterMap (items : List Value) :
    itemsUnder scenario items = items.filterMap (under? scenario) := by
  induction items with
  | nil => rfl
  | cons item items ih =>
    rw [itemsUnder_cons, ih, List.filterMap_cons]
    cases under? scenario item <;> rfl

/-- The entries that are present have the shapes of the entries' values. -/
theorem entriesUnder_eq_filterMap (entries : List (String × Value)) :
    entriesUnder scenario entries = entries.filterMap fun entry =>
      (under? scenario entry.2).map fun shape => (entry.1, shape) := by
  induction entries with
  | nil => rfl
  | cons entry entries ih =>
    rw [entriesUnder_cons, ih, List.filterMap_cons]
    cases under? scenario entry.2 <;> rfl

/-- What the branches of a ternary ask is asked by the ternary. -/
theorem asks_of_asks_branch {value : Value} {ternary : Ternary}
    (hternary : Ternary.ofValue? value = some ternary) {truth : Bool} {name : String}
    (h : (ternary.branch truth).Asks name) : value.Asks name := by
  rw [Ternary.eq_of_ofValue? hternary]
  refine .entry List.mem_cons_self (.item ?_ h)
  cases truth <;> simp [Ternary.branch]

/-- The branch that is selected is decided with its ternary. -/
theorem DecidedBy.branch {value : Value} (h : value.DecidedBy scenario) {ternary : Ternary}
    (hternary : Ternary.ofValue? value = some ternary) (truth : Bool) :
    (ternary.branch truth).DecidedBy scenario :=
  fun name hname => h name (asks_of_asks_branch hternary hname)

/-- A ternary's own condition is decided. -/
theorem DecidedBy.exists_truth {value : Value} (h : value.DecidedBy scenario)
    {ternary : Ternary} (hternary : Ternary.ofValue? value = some ternary) :
    ∃ truth, scenario.get? ternary.condition = some truth :=
  Option.isSome_iff_exists.mp (h _ (.here hternary))

/-- What a scenario keeps of a value stands inside its shape, in its own shape. -/
theorem exists_shape_of_kept {source value image : Value} (hkept : source.Kept scenario value)
    (himage : source.under? scenario = some image) :
    ∃ shape, value.under? scenario = some shape ∧ image ∈ shape.parts := by
  induction hkept with
  | self => exact ⟨image, himage, image.mem_parts_self⟩
  | branch hternary htruth _ ih =>
    rw [under?_ternary hternary htruth]
    exact ih
  | item hmem _ ih =>
    obtain ⟨shape, hshape, hpart⟩ := ih
    refine ⟨_, under?_array _, mem_parts_array.mpr (.inr ⟨shape, ?_, hpart⟩)⟩
    rw [itemsUnder_eq_filterMap]
    exact List.mem_filterMap.mpr ⟨_, hmem, hshape⟩
  | @entry entries entry hplain hmem _ ih =>
    obtain ⟨shape, hshape, hpart⟩ := ih
    refine ⟨_, under?_object hplain, mem_parts_object.mpr (.inr ⟨(entry.1, shape), ?_, hpart⟩)⟩
    rw [entriesUnder_eq_filterMap]
    exact List.mem_filterMap.mpr ⟨entry, hmem, by rw [hshape]; rfl⟩

/-- Whatever stands inside the shape of a value is the shape of something that
the scenario keeps and that is not pending itself. -/
theorem exists_kept_of_mem_parts {value shape image : Value} (hdecided : value.DecidedBy scenario)
    (hshape : value.under? scenario = some shape) (himage : image ∈ shape.parts) :
    ∃ source : Value, source.Kept scenario value ∧ ¬source.Pending ∧
      source.under? scenario = some image := by
  induction value using partInduction generalizing shape with
  | step value ih =>
    by_cases hpending : value.Pending
    · rcases hpending with hternary | habsent
      · obtain ⟨ternary, hternary⟩ := Option.isSome_iff_exists.mp hternary
        obtain ⟨truth, htruth⟩ := hdecided.exists_truth hternary
        rw [under?_ternary hternary htruth] at hshape
        obtain ⟨source, hkept, hsource⟩ := ih _ (within_branch hternary truth)
          (hdecided.branch hternary truth) hshape himage
        exact ⟨source, .branch hternary htruth hkept, hsource⟩
      · rw [eq_of_isNoValue habsent, under?] at hshape
        cases hshape
    · cases value with
      | array items =>
        rw [under?_array, Option.some.injEq] at hshape
        subst hshape
        rcases mem_parts_array.mp himage with rfl | ⟨present, hpresent, himage⟩
        · exact ⟨array items, .self, hpending, under?_array items⟩
        · rw [itemsUnder_eq_filterMap] at hpresent
          obtain ⟨item, hitem, hunder⟩ := List.mem_filterMap.mp hpresent
          obtain ⟨source, hkept, hsource⟩ := ih item (.item hitem)
            (fun name hname => hdecided name (.item hitem hname)) hunder himage
          exact ⟨source, .item hitem hkept, hsource⟩
      | object entries =>
        rw [under?_object hpending, Option.some.injEq] at hshape
        subst hshape
        rcases mem_parts_object.mp himage with rfl | ⟨present, hpresent, himage⟩
        · exact ⟨object entries, .self, hpending, under?_object hpending⟩
        · rw [entriesUnder_eq_filterMap] at hpresent
          obtain ⟨entry, hentry, hmap⟩ := List.mem_filterMap.mp hpresent
          obtain ⟨inner, hunder, rfl⟩ := Option.map_eq_some_iff.mp hmap
          obtain ⟨source, hkept, hsource⟩ := ih entry.2 (.entry hentry)
            (fun name hname => hdecided name (.entry hentry hname)) hunder himage
          exact ⟨source, .entry hpending hentry hkept, hsource⟩
      | _ =>
        cases hshape
        rw [List.mem_singleton.mp himage]
        exact ⟨_, .self, hpending, rfl⟩

/-- Entries that are present have keys that were there. -/
theorem mem_keys_of_mem_entriesUnder {entries : List (String × Value)} {entry : String × Value}
    (h : entry ∈ entriesUnder scenario entries) : entry.1 ∈ Entries.keys entries := by
  rw [entriesUnder_eq_filterMap] at h
  obtain ⟨source, hsource, hentry⟩ := List.mem_filterMap.mp h
  obtain ⟨shape, -, rfl⟩ := Option.map_eq_some_iff.mp hentry
  exact List.mem_map.mpr ⟨source, hsource, rfl⟩

/-- Only a misshapen mapping can turn into something pending that it was not. -/
theorem misshapen_of_pending {source image : Value} (hplain : ¬source.Pending)
    (himage : source.under? scenario = some image) (h : image.Pending) : source.Misshapen := by
  cases source with
  | object entries =>
    rw [under?_object hplain, Option.some.injEq] at himage
    subst himage
    rcases h with hternary | habsent
    · obtain ⟨ternary, hternary⟩ := Option.isSome_iff_exists.mp hternary
      have hentries := object.inj (Ternary.eq_of_ofValue? hternary)
      refine .inl ⟨?_, ?_⟩
      · exact mem_keys_of_mem_entriesUnder (hentries ▸ List.mem_cons_self)
      · rw [← Option.not_isSome_iff_eq_none]
        exact fun hsome => hplain (.inl hsome)
    · have hentries := object.inj (eq_of_isNoValue habsent)
      refine .inr ⟨?_, ?_⟩
      · exact mem_keys_of_mem_entriesUnder (hentries ▸ List.mem_cons_self)
      · by_contra hname
        obtain ⟨name, hname⟩ := Option.ne_none_iff_exists'.mp hname
        obtain ⟨⟨key, value⟩, hsingle, hvalue⟩ := Option.bind_eq_some_iff.mp hname
        obtain rfl : entries = [(key, string name)] := by
          cases entries with
          | nil => cases hsingle
          | cons entry rest => cases rest <;> cases hsingle; cases value <;> cases hvalue; rfl
        cases hentries
        exact hplain (.inr rfl)
  | array items =>
    rw [under?_array, Option.some.injEq] at himage
    subst himage
    rcases h with h | h <;> cases h
  | _ =>
    cases himage
    rcases h with h | h <;> cases h

/-- Nothing of some kind that is pending stands inside a shape, exactly if no
misshapen mapping that the scenario keeps turns into it. -/
theorem forall_parts_iff {value shape : Value} (hdecided : value.DecidedBy scenario)
    (hshape : value.under? scenario = some shape) {bad : Value → Prop}
    (hbad : ∀ image, bad image → image.Pending) :
    (∀ image ∈ shape.parts, ¬bad image) ↔
      ∀ source : Value, source.Kept scenario value → source.Misshapen →
        ∀ image, source.under? scenario = some image → ¬bad image := by
  constructor
  · intro hnone source hkept _ image himage
    obtain ⟨whole, hwhole, hpart⟩ := exists_shape_of_kept hkept himage
    rw [hshape, Option.some.injEq] at hwhole
    exact hnone image (hwhole ▸ hpart)
  · intro hharmless image himage himageBad
    obtain ⟨source, hkept, hplain, hunder⟩ := exists_kept_of_mem_parts hdecided hshape himage
    have hmisshapen := misshapen_of_pending hplain hunder (hbad image himageBad)
    exact hharmless source hkept hmisshapen image hunder himageBad

end Shape

end Value

namespace Analysis

/-- A shape that is listed with a scenario is the one under the scenario, which
decides all ternaries inside the value. -/
theorem decidedBy_of_mem_flatten {template : Template} {settings : Settings}
    {region : Option String} {analysis : Analysis}
    (hfaithful : Faithful template settings region analysis) {preserveShape : Bool}
    {value : Value} {flattened : Flattened} (h : flattened ∈ analysis.flatten preserveShape value)
    {scenario : Scenario} (hscenario : flattened.scenario = some scenario) :
    value.DecidedBy scenario ∧ value.under? scenario = some flattened.value := by
  have hasks : ∃ name, value.Asks name := by
    by_contra hnone
    have hnames : ternaryConditions true value = [] := by
      refine List.eq_nil_iff_forall_not_mem.mpr fun name hname => hnone ⟨name, ?_⟩
      exact mem_ternaryConditions.mp hname
    rw [flatten, hnames] at h
    rw [List.mem_singleton.mp h] at hscenario
    cases hscenario
  obtain ⟨listed, hmem, hlisted, hunder, -⟩ := (mem_flatten hasks).mp h
  rw [hscenario, Option.some.injEq] at hlisted
  subst hlisted
  exact ⟨fun name => (isSome_get?_of_mem_scenarios hfaithful.sameBuilder hmem name).mpr, hunder⟩

/-- A shape that is listed with a scenario is settled exactly if no misshapen
mapping that the scenario keeps turns into a ternary or into a reference to the
absent value. In particular it is settled if every mapping with the key of a
ternary or of a reference is one. -/
theorem flatten_settled_iff (template : Template) (settings : Settings) (region : Option String)
    (analysis : Analysis) (preserveShape : Bool) (value : Value) (flattened : Flattened)
    (scenario : Scenario) (hreached : Reached template settings region analysis)
    (hlisted : flattened ∈ analysis.flatten preserveShape value)
    (hscenario : flattened.scenario = some scenario) :
    flattened.value.Settled ↔ ∀ source : Value, source.Kept scenario value → source.Misshapen →
      ∀ image, source.under? scenario = some image → ¬image.Pending := by
  obtain ⟨hdecided, hunder⟩ := decidedBy_of_mem_flatten hreached.faithful hlisted hscenario
  exact Value.forall_parts_iff hdecided hunder fun _ => id

theorem flatten_settles_small_worker :
    (∀ part ∈ workerProperties.parts, ¬part.Misshapen) ∧
      ⟨some ⟨[("IsProd", false), ("IsLocal", true)]⟩, .object [("Size", .string "small")]⟩ ∈
        flatten ⟨stageTemplate, (ConditionIndex.ofTemplate stageTemplate {}).builder,
          some "eu-west-1", []⟩ false workerProperties ∧
      (Value.object [("Size", .string "small")]).Settled := by
  have hshaped : ∀ part ∈ workerProperties.parts, ¬part.Misshapen := by decide
  have hlisted : ⟨some ⟨[("IsProd", false), ("IsLocal", true)]⟩,
      .object [("Size", .string "small")]⟩ ∈
      flatten ⟨stageTemplate, (ConditionIndex.ofTemplate stageTemplate {}).builder,
        some "eu-west-1", []⟩ false workerProperties :=
    (mem_flatten ⟨_, asks_workerProperties.1⟩).mpr ⟨_, by decide +kernel, rfl, rfl, by decide⟩
  refine ⟨hshaped, hlisted, ?_⟩
  refine (flatten_settled_iff stageTemplate {} (some "eu-west-1") _ false workerProperties _ _
    .start hlisted rfl).mpr ?_
  intro source hkept hmisshapen
  exact absurd hmisshapen (hshaped source hkept.mem_parts)

/-- Properties with a name that is chosen inside a reference. -/
def namedProperties : Value := .object [
  ("Name", .object [("Ref", .object [("Fn::If", .array [.string "UseDefault",
    .string "AWS::NoValue", .string "Name"])])]),
  ("Size", .integer 1)]

/-- What the properties come to where the absent value is chosen. -/
def absentName : Flattened := ⟨some ⟨[("UseDefault", true)]⟩, .object [
  ("Name", .object [("Ref", .string "AWS::NoValue")]), ("Size", .integer 1)]⟩

/-- A reference that only turns into one to the absent value by what is chosen
inside it stays, whether or not shapes are preserved. -/
theorem flatten_leaves_absent_reference :
    absentName ∈ flatten ⟨{ root := .object [] },
        (ConditionIndex.ofTemplate { root := .object [] } {}).builder, none, []⟩
        true namedProperties ∧
      absentName ∈ flatten ⟨{ root := .object [] },
        (ConditionIndex.ofTemplate { root := .object [] } {}).builder, none, []⟩
        false namedProperties ∧
      absentName.scenario.isSome = true ∧
      .object [("Ref", .string "AWS::NoValue")] ∈ absentName.value.parts ∧
      ¬absentName.value.Settled := by
  have hasks : namedProperties.Asks "UseDefault" :=
    .entry List.mem_cons_self (.entry List.mem_cons_self (Value.asks_ternary _ _ _))
  have hlisted : ∀ preserveShape, absentName ∈ flatten ⟨{ root := .object [] },
      (ConditionIndex.ofTemplate { root := .object [] } {}).builder, none, []⟩
      preserveShape namedProperties := fun preserveShape =>
    (mem_flatten ⟨_, hasks⟩).mpr ⟨_, by decide +kernel, rfl, rfl, fun h => by cases h⟩
  exact ⟨hlisted true, hlisted false, rfl, List.mem_cons_of_mem _ List.mem_cons_self, by decide⟩

end Analysis

end StackTemplate
