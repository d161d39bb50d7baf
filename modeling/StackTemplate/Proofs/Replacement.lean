import StackTemplate.Proofs.Settlement

/-!
# Ternaries replaced, absent values removed

In a world a value takes its shape in two passes: every ternary inside is
replaced by the branch that its condition selects, and then every reference to
the absent value is removed, at any depth. Flattening does both in one pass and
looks at no mapping twice. Its shape is therefore the one of two passes except
for references to the absent value that are left in it, and it is the same one
exactly if no mapping turned into such a reference.
-/

namespace StackTemplate

namespace Value

mutual

/-- A value in which every ternary is replaced by the branch that its condition
selects. -/
def replaced (truth : String → Bool) : Value → Value
  | .object [("Fn::If", .array [.string condition, whenTrue, whenFalse])] =>
    if truth condition then replaced truth whenTrue else replaced truth whenFalse
  | .object entries => .object (entriesReplaced truth entries)
  | .array items => .array (itemsReplaced truth items)
  | scalar => scalar

/-- Items in which every ternary is replaced. -/
def itemsReplaced (truth : String → Bool) : List Value → List Value
  | [] => []
  | item :: items => replaced truth item :: itemsReplaced truth items

/-- Entries in which every ternary is replaced. -/
def entriesReplaced (truth : String → Bool) : List (String × Value) → List (String × Value)
  | [] => []
  | (key, value) :: entries => (key, replaced truth value) :: entriesReplaced truth entries

end

mutual

/-- A value without the references to the absent value inside, at any depth. What
becomes such a reference by losing others is removed, too; none if that is the
whole value. -/
def pruned? : Value → Option Value
  | .object entries =>
    let rest := Value.object (entriesPruned entries)
    if rest.isNoValue then none else some rest
  | .array items => some (.array (itemsPruned items))
  | scalar => some scalar

/-- The items that are not removed. -/
def itemsPruned : List Value → List Value
  | [] => []
  | item :: items => (pruned? item).toList ++ itemsPruned items

/-- The entries that are not removed. -/
def entriesPruned : List (String × Value) → List (String × Value)
  | [] => []
  | (key, value) :: entries =>
    ((pruned? value).map fun rest => (key, rest)).toList ++ entriesPruned entries

end

/-- The shape of a value when conditions have truth values; none if the value is
absent. -/
def shapeIn? (truth : String → Bool) (value : Value) : Option Value :=
  (value.replaced truth).pruned?

section Passes

variable {truth : String → Bool}

/-- A ternary is replaced by what the selected branch becomes. -/
theorem replaced_ternary {value : Value} {ternary : Ternary}
    (h : Ternary.ofValue? value = some ternary) :
    value.replaced truth = (ternary.branch (truth ternary.condition)).replaced truth := by
  rw [Ternary.eq_of_ofValue? h, replaced]
  cases truth ternary.condition <;> rfl

/-- A mapping that is no ternary keeps its keys. -/
theorem replaced_object {entries : List (String × Value)}
    (h : Ternary.ofValue? (object entries) = none) :
    (object entries).replaced truth =
      object (entries.map fun entry => (entry.1, entry.2.replaced truth)) := by
  have hentries : entriesReplaced truth entries =
      entries.map fun entry => (entry.1, entry.2.replaced truth) := by
    clear h
    induction entries with
    | nil => rfl
    | cons entry entries ih => rw [entriesReplaced, ih, List.map_cons]
  rw [replaced, hentries]
  rintro condition whenTrue whenFalse rfl
  cases h

/-- Every item of a list has its ternaries replaced. -/
theorem replaced_array (items : List Value) :
    (array items).replaced truth = array (items.map (replaced truth)) := by
  have hitems : itemsReplaced truth items = items.map (replaced truth) := by
    induction items with
    | nil => rfl
    | cons item items ih => rw [itemsReplaced, ih, List.map_cons]
  rw [replaced, hitems]

/-- The items that are left. -/
theorem itemsPruned_eq_filterMap (items : List Value) :
    itemsPruned items = items.filterMap pruned? := by
  induction items with
  | nil => rfl
  | cons item items ih =>
    rw [itemsPruned, ih, List.filterMap_cons]
    cases pruned? item <;> rfl

/-- The entries that are left. -/
theorem entriesPruned_eq_filterMap (entries : List (String × Value)) :
    entriesPruned entries = entries.filterMap fun entry =>
      (pruned? entry.2).map fun rest => (entry.1, rest) := by
  induction entries with
  | nil => rfl
  | cons entry entries ih =>
    rw [entriesPruned, ih, List.filterMap_cons]
    cases pruned? entry.2 <;> rfl

end Passes

/-- Nothing that is left refers to the absent value. -/
theorem isNoValue_eq_false_of_pruned? {value rest part : Value} (h : value.pruned? = some rest)
    (hpart : part ∈ rest.parts) : part.isNoValue = false := by
  induction value using partInduction generalizing rest with
  | step value ih =>
    cases value with
    | array items =>
      rw [pruned?, Option.some.injEq] at h
      subst h
      rcases mem_parts_array.mp hpart with rfl | ⟨kept, hkept, hpart⟩
      · rfl
      · rw [itemsPruned_eq_filterMap] at hkept
        obtain ⟨item, hitem, hpruned⟩ := List.mem_filterMap.mp hkept
        exact ih item (.item hitem) hpruned hpart
    | object entries =>
      rw [pruned?] at h
      split at h
      · cases h
      · next hpresent =>
        cases h
        rcases mem_parts_object.mp hpart with rfl | ⟨kept, hkept, hpart⟩
        · exact Bool.eq_false_of_not_eq_true hpresent
        · rw [entriesPruned_eq_filterMap] at hkept
          obtain ⟨entry, hentry, hmap⟩ := List.mem_filterMap.mp hkept
          obtain ⟨inner, hpruned, rfl⟩ := Option.map_eq_some_iff.mp hmap
          exact ih entry.2 (.entry hentry) hpruned hpart
    | _ =>
      cases h
      rw [List.mem_singleton.mp hpart]
      rfl

/-- Nothing is removed exactly if nothing refers to the absent value. -/
theorem pruned?_eq_some_self_iff {value : Value} :
    value.pruned? = some value ↔ ∀ part ∈ value.parts, part.isNoValue = false := by
  refine ⟨fun h part => isNoValue_eq_false_of_pruned? h, fun h => ?_⟩
  induction value using partInduction with
  | step value ih =>
    have hinside : ∀ inner : Value, inner.Within value → inner.pruned? = some inner :=
      fun inner hinner => ih inner hinner fun part hpart =>
        h part (parts_subset hinner.mem_parts hpart)
    cases value with
    | array items =>
      have hitems : items.filterMap pruned? = items.filterMap some :=
        List.filterMap_congr fun item hitem => hinside item (.item hitem)
      rw [pruned?, itemsPruned_eq_filterMap, hitems, List.filterMap_some]
    | object entries =>
      have hentries : (entries.filterMap fun entry =>
          (pruned? entry.2).map fun rest => (entry.1, rest)) = entries.filterMap some := by
        refine List.filterMap_congr fun entry hentry => ?_
        rw [hinside entry.2 (.entry hentry), Option.map_some]
      rw [pruned?, entriesPruned_eq_filterMap, hentries, List.filterMap_some,
        h (object entries) (mem_parts_self _)]
      rfl
    | _ => rfl

section Agreement

variable {scenario : Scenario} {truth : String → Bool}

/-- Items that agree in one pass and in two agree as a list. -/
theorem itemsPruned_map_replaced {items : List Value}
    (h : ∀ item ∈ items, (item.replaced truth).pruned? = (item.under? scenario).bind pruned?) :
    itemsPruned (items.map (replaced truth)) = itemsPruned (itemsUnder scenario items) := by
  rw [itemsPruned_eq_filterMap, itemsPruned_eq_filterMap, itemsUnder_eq_filterMap,
    List.filterMap_map, List.filterMap_filterMap]
  exact List.filterMap_congr h

/-- Entries whose values agree in one pass and in two agree as a mapping. -/
theorem entriesPruned_map_replaced {entries : List (String × Value)}
    (h : ∀ entry ∈ entries,
      (entry.2.replaced truth).pruned? = (entry.2.under? scenario).bind pruned?) :
    entriesPruned (entries.map fun entry => (entry.1, entry.2.replaced truth)) =
      entriesPruned (entriesUnder scenario entries) := by
  rw [entriesPruned_eq_filterMap, entriesPruned_eq_filterMap, entriesUnder_eq_filterMap,
    List.filterMap_map, List.filterMap_filterMap]
  refine List.filterMap_congr fun entry hentry => ?_
  dsimp only [Function.comp]
  rw [h entry hentry]
  cases entry.2.under? scenario <;> rfl

/-- A scenario with the truth values of all ternaries inside a value gives it the
shape that it has in two passes, but for references to the absent value that are
left. -/
theorem shapeIn?_eq_under?_bind {value : Value}
    (h : ∀ name, value.Asks name → scenario.get? name = some (truth name)) :
    value.shapeIn? truth = (value.under? scenario).bind pruned? := by
  unfold shapeIn?
  induction value using partInduction with
  | step value ih =>
    cases hternary : Ternary.ofValue? value with
    | some ternary =>
      rw [replaced_ternary hternary, under?_ternary hternary (h _ (.here hternary))]
      exact ih _ (within_branch hternary _) fun name hname =>
        h name (asks_of_asks_branch hternary hname)
    | none =>
      cases value with
      | array items =>
        have hitems := itemsPruned_map_replaced fun item hitem =>
          ih item (.item hitem) fun name hname => h name (.item hitem hname)
        rw [replaced_array, under?_array, Option.bind_some, pruned?, pruned?, hitems]
      | object entries =>
        by_cases habsent : (object entries).isNoValue = true
        · rw [eq_of_isNoValue habsent]
          rfl
        · have hplain : ¬(object entries).Pending := by simp [Pending, hternary, habsent]
          have hentries := entriesPruned_map_replaced fun entry hentry =>
            ih entry.2 (.entry hentry) fun name hname => h name (.entry hentry hname)
          rw [replaced_object hternary, under?_object hplain, Option.bind_some, pruned?, pruned?,
            hentries]
      | _ => rfl

/-- No mapping that a scenario keeps turns into a reference to the absent value. -/
def NoneTurnsAbsent (scenario : Scenario) (value : Value) : Prop :=
  ∀ source : Value, source.Kept scenario value → source.Misshapen →
    ∀ image, source.under? scenario = some image → image.isNoValue = false

/-- A value whose mappings are not misshapen has none that turns into a reference
to the absent value. -/
theorem noneTurnsAbsent_of_forall_parts {value : Value}
    (h : ∀ part ∈ value.parts, ¬part.Misshapen) : value.NoneTurnsAbsent scenario :=
  fun source hkept hmisshapen => absurd hmisshapen (h source hkept.mem_parts)

/-- One pass and two passes give a value the same shape exactly if no mapping
turns into a reference to the absent value. -/
theorem shapeIn?_eq_some_iff {value shape : Value}
    (h : ∀ name, value.Asks name → scenario.get? name = some (truth name))
    (hunder : value.under? scenario = some shape) :
    value.shapeIn? truth = some shape ↔ value.NoneTurnsAbsent scenario := by
  have hdecided : value.DecidedBy scenario := fun name hname => by
    rw [h name hname]
    rfl
  have hparts : (∀ image ∈ shape.parts, ¬image.isNoValue = true) ↔
      ∀ source : Value, source.Kept scenario value → source.Misshapen →
        ∀ image, source.under? scenario = some image → ¬image.isNoValue = true :=
    forall_parts_iff hdecided hunder fun _ => .inr
  simp only [Bool.not_eq_true] at hparts
  rw [shapeIn?_eq_under?_bind h, hunder, Option.bind_some, pruned?_eq_some_self_iff]
  exact hparts

/-- The shape of two passes is the one of one pass exactly if no mapping turns
into a reference to the absent value. -/
theorem under?_eq_some_iff {value shape : Value}
    (h : ∀ name, value.Asks name → scenario.get? name = some (truth name))
    (hshape : value.shapeIn? truth = some shape) :
    value.under? scenario = some shape ↔ value.NoneTurnsAbsent scenario := by
  refine ⟨fun hunder => (shapeIn?_eq_some_iff h hunder).mp hshape, fun hnone => ?_⟩
  have hbind := (shapeIn?_eq_under?_bind h).symm.trans hshape
  obtain ⟨listed, hlisted, -⟩ := Option.bind_eq_some_iff.mp hbind
  have hsame := (shapeIn?_eq_some_iff h hlisted).mpr hnone
  rw [hlisted, ← hsame, hshape]

end Agreement

end Value

namespace Analysis

/-- Flattening covers every shape that a value takes, as far as no mapping turns
into a reference to the absent value. If the enumeration is not cut off, the
truth values that the ternaries' conditions have in a world are listed, with a
value that is the shape of the value there once the references that are left in
it are removed. The shape itself is listed exactly if no mapping turned into
such a reference, and without preserving shapes exactly if it is no empty mapping
either. Conversely, whatever is listed differs from the shape under its own
scenario, which decides the conditions of all ternaries inside, by such
references only, and by none exactly if no mapping turned into one. -/
theorem flatten_covers_shapes (template : Template) (settings : Settings)
    (region : Option String) (analysis : Analysis) (value : Value)
    (hreached : Reached template settings region analysis) (hasks : ∃ name, value.Asks name) :
    ((ConditionIndex.ofTemplate template settings).PlainNames →
      (∀ name, value.Asks name → (ConditionIndex.ofTemplate template settings).Acyclic name) →
      (∀ scenarios, (ConditionIndex.ofTemplate template settings).buildScenarios
          (ternaryConstraints value) region = .ok scenarios →
        scenarios.length < (ConditionIndex.ofTemplate template settings).maxScenarios) →
      ∀ world : World, world.Respects (ConditionIndex.ofTemplate template settings) region →
        ∃ scenario : Scenario, Entries.Distinct scenario.truths ∧
          (∀ name truth, scenario.get? name = some truth ↔ value.Asks name ∧
            world.truth (ConditionIndex.ofTemplate template settings) name = truth) ∧
          ∀ shape, value.shapeIn? (world.truth (ConditionIndex.ofTemplate template settings)) =
              some shape →
            (∃ listed, ⟨some scenario, listed⟩ ∈ analysis.flatten true value ∧
              listed.pruned? = some shape) ∧
            (⟨some scenario, shape⟩ ∈ analysis.flatten true value ↔
              value.NoneTurnsAbsent scenario) ∧
            (⟨some scenario, shape⟩ ∈ analysis.flatten false value ↔
              value.NoneTurnsAbsent scenario ∧ shape.isEmptyObject = false)) ∧
    ∀ preserveShape, ∀ flattened ∈ analysis.flatten preserveShape value,
      ∃ scenario, flattened.scenario = some scenario ∧
        (∀ name, (scenario.get? name).isSome = true ↔ value.Asks name) ∧
        value.shapeIn? (fun name => decide (scenario.get? name = some true)) =
          flattened.value.pruned? ∧
        (value.shapeIn? (fun name => decide (scenario.get? name = some true)) =
          some flattened.value ↔ value.NoneTurnsAbsent scenario) := by
  have hfaithful := hreached.faithful
  constructor
  · intro hplain hacyclic hlimit world hrespects
    rw [← hfaithful.sameRegion] at hlimit hrespects
    have hlisted := mem_flatten_world_iff hfaithful.sameBuilder
      (fun _ _ _ => ConditionIndex.legible_ofTemplate hplain) hasks hacyclic hlimit hrespects
    have htruths : ∀ name, value.Asks name →
        (scenarioIn world (.ofTemplate template settings) value).get? name =
          some (world.truth (.ofTemplate template settings) name) :=
      fun name hname => get?_scenarioIn.mpr ⟨hname, rfl⟩
    refine ⟨scenarioIn world (.ofTemplate template settings) value,
      distinct_scenarioIn .., fun _ _ => get?_scenarioIn, fun shape hshape => ⟨?_, ?_, ?_⟩⟩
    · have hbind := (Value.shapeIn?_eq_under?_bind htruths).symm.trans hshape
      obtain ⟨listed, hunder, hpruned⟩ := Option.bind_eq_some_iff.mp hbind
      exact ⟨listed, (hlisted listed true).mpr ⟨hunder, fun _ => rfl⟩, hpruned⟩
    · rw [hlisted, Value.under?_eq_some_iff htruths hshape]
      simp
    · rw [hlisted, Value.under?_eq_some_iff htruths hshape]
      simp
  · intro preserveShape flattened hflattened
    obtain ⟨scenario, hmem, hscenario, hunder, -⟩ := (mem_flatten hasks).mp hflattened
    have hdecides := isSome_get?_of_mem_scenarios hfaithful.sameBuilder hmem
    have htruths : ∀ name, value.Asks name →
        scenario.get? name = some (decide (scenario.get? name = some true)) := by
      intro name hname
      obtain ⟨truth, htruth⟩ := Option.isSome_iff_exists.mp ((hdecides name).mpr hname)
      rw [htruth]
      cases truth <;> rfl
    refine ⟨scenario, hscenario, hdecides, ?_, Value.shapeIn?_eq_some_iff htruths hunder⟩
    rw [Value.shapeIn?_eq_under?_bind htruths, hunder, Option.bind_some]

theorem flatten_covers_small_worker :
    (∀ part ∈ workerProperties.parts, ¬part.Misshapen) ∧
    ∃ scenario : Scenario, scenario.get? "IsProd" = some false ∧
      scenario.get? "IsLocal" = some true ∧
      ⟨some scenario, .object [("Size", .string "small")]⟩ ∈
        flatten ⟨stageTemplate, (ConditionIndex.ofTemplate stageTemplate {}).builder,
          some "eu-west-1", []⟩ false workerProperties := by
  have hshaped : ∀ part ∈ workerProperties.parts, ¬part.Misshapen := by decide
  obtain ⟨hprod, hlocal⟩ := asks_workerProperties
  have hlength : ((ConditionIndex.ofTemplate stageTemplate {}).buildScenarios
      (ternaryConstraints workerProperties) (some "eu-west-1")).map List.length = .ok 2 := by
    decide +kernel
  have hlimit : ∀ scenarios, (ConditionIndex.ofTemplate stageTemplate {}).buildScenarios
      (ternaryConstraints workerProperties) (some "eu-west-1") = .ok scenarios →
      scenarios.length < (ConditionIndex.ofTemplate stageTemplate {}).maxScenarios := by
    intro scenarios hbuild
    rw [hbuild] at hlength
    rw [Except.ok.inj hlength]
    decide
  have hrespects : (stageWorld "dev" "eu-west-1").Respects
      (ConditionIndex.ofTemplate stageTemplate {}) (some "eu-west-1") :=
    .of_entries (by decide) (by decide)
  obtain ⟨scenario, -, hget, hlisted⟩ := (flatten_covers_shapes stageTemplate {}
    (some "eu-west-1") _ workerProperties .start ⟨_, hprod⟩).1 (by decide)
    (fun name _ => ConditionIndex.acyclic_stageTemplate name) hlimit _ hrespects
  obtain ⟨-, -, hmem⟩ := hlisted (.object [("Size", .string "small")]) rfl
  exact ⟨hshaped, scenario, (hget _ _).mpr ⟨hprod, by decide⟩, (hget _ _).mpr ⟨hlocal, by decide⟩,
    hmem.mpr ⟨Value.noneTurnsAbsent_of_forall_parts hshaped, rfl⟩⟩

/-- A world in which every name that is not defined is a condition that holds. -/
def affirmingWorld : World where
  parameter _ := ""
  pair _ := false
  unknown _ := false
  undefined _ := true

/-- Where the absent value is chosen as a name, the properties have a shape without
the name. That shape is not listed, although the enumeration is not cut off: the
one that is listed refers to the absent value. -/
theorem flatten_misses_shape_without_name :
    (ConditionIndex.ofTemplate { root := .object [] } {}).PlainNames ∧
    (∀ name, (ConditionIndex.ofTemplate { root := .object [] } {}).Acyclic name) ∧
    (ConditionIndex.ofTemplate { root := .object [] } {}).buildScenarios
        (ternaryConstraints namedProperties) none =
      .ok [⟨[("UseDefault", true)]⟩, ⟨[("UseDefault", false)]⟩] ∧
    affirmingWorld.Respects (.ofTemplate { root := .object [] } {}) none ∧
    namedProperties.shapeIn? (affirmingWorld.truth (.ofTemplate { root := .object [] } {})) =
      some (.object [("Size", .integer 1)]) ∧
    (∀ preserveShape, flatten ⟨{ root := .object [] },
        (ConditionIndex.ofTemplate { root := .object [] } {}).builder, none, []⟩
        preserveShape namedProperties =
      [⟨some ⟨[("UseDefault", true)]⟩, .object [
          ("Name", .object [("Ref", .string "AWS::NoValue")]), ("Size", .integer 1)]⟩,
        ⟨some ⟨[("UseDefault", false)]⟩, .object [
          ("Name", .object [("Ref", .string "Name")]), ("Size", .integer 1)]⟩]) ∧
    ¬namedProperties.NoneTurnsAbsent ⟨[("UseDefault", true)]⟩ := by
  refine ⟨by decide, ConditionIndex.acyclic_of_rank (fun _ => 0) (by decide), by decide +kernel,
    .of_entries (by decide) (by decide), rfl, ?_, ?_⟩
  · intro preserveShape
    have hscenarios : scenarios ⟨{ root := .object [] },
        (ConditionIndex.ofTemplate { root := .object [] } {}).builder, none, []⟩
        (ternaryConstraints namedProperties) none =
          [⟨[("UseDefault", true)]⟩, ⟨[("UseDefault", false)]⟩] := by decide +kernel
    change (scenarios _ (ternaryConstraints namedProperties) none).filterMap _ = _
    rw [hscenarios]
    rfl
  · intro habsent
    have hkept : (Value.object [("Ref", .object [("Fn::If", .array [.string "UseDefault",
        .string "AWS::NoValue", .string "Name"])])]).Kept ⟨[("UseDefault", true)]⟩
        namedProperties := .entry (by decide) List.mem_cons_self .self
    cases habsent _ hkept (by decide) _ rfl

end Analysis

end StackTemplate
