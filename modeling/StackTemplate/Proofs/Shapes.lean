import StackTemplate.Proofs.Reachability

/-!
# Shapes of a value

Flattening lists the shapes of a value, one for each scenario of the ternaries
inside. The conditions that these scenarios decide are those of the ternaries,
whether or not their branches are selected, so none is met that is not decided.
If the enumeration is not cut off, the truth values in every world are among
the scenarios.
-/

namespace StackTemplate

namespace Value

/-- A ternary inside a value has a condition. -/
inductive Asks : Value → String → Prop where
  /-- The value itself is a ternary. -/
  | here {value : Value} {ternary : Ternary} (h : Ternary.ofValue? value = some ternary) :
      Asks value ternary.condition
  /-- An item has such a ternary inside. -/
  | item {items : List Value} {item : Value} {name : String} (hmem : item ∈ items)
      (h : Asks item name) : Asks (.array items) name
  /-- An entry has such a ternary inside. -/
  | entry {entries : List (String × Value)} {key : String} {value : Value} {name : String}
      (hmem : (key, value) ∈ entries) (h : Asks value name) : Asks (.object entries) name

/-- A list has the ternaries of its items inside. -/
theorem asks_array {items : List Value} {name : String} :
    (array items).Asks name ↔ ∃ item ∈ items, item.Asks name := by
  constructor
  · intro h
    cases h with
    | here h => cases h
    | item hmem h => exact ⟨_, hmem, h⟩
  · rintro ⟨item, hmem, h⟩
    exact .item hmem h

/-- A mapping is a ternary or has those of its entries inside. -/
theorem asks_object {entries : List (String × Value)} {name : String} :
    (object entries).Asks name ↔
      (∃ ternary, Ternary.ofValue? (object entries) = some ternary ∧ ternary.condition = name) ∨
        ∃ entry ∈ entries, entry.2.Asks name := by
  constructor
  · intro h
    cases h with
    | here h => exact .inl ⟨_, h, rfl⟩
    | entry hmem h => exact .inr ⟨_, hmem, h⟩
  · rintro (⟨ternary, h, rfl⟩ | ⟨⟨key, value⟩, hmem, h⟩)
    · exact .here h
    · exact .entry hmem h

/-- A ternary has its own condition. -/
theorem asks_ternary (condition : String) (whenTrue whenFalse : Value) :
    (object [("Fn::If", array [string condition, whenTrue, whenFalse])]).Asks condition :=
  asks_object.mpr (.inl ⟨⟨condition, whenTrue, whenFalse⟩, rfl, rfl⟩)

/-- The ternaries that are listed are those inside. -/
theorem exists_mem_ternarySitesAt (path : Path) (insideFunction : Bool) (value : Value) :
    ∀ name, (∃ site ∈ value.ternarySitesAt path insideFunction, site.ternary.condition = name) ↔
      value.Asks name := by
  refine ternarySitesAt.induct
    (fun path insideFunction value => ∀ name,
      (∃ site ∈ value.ternarySitesAt path insideFunction, site.ternary.condition = name) ↔
        value.Asks name)
    (fun path insideFunction entries => ∀ name,
      (∃ site ∈ entryTernarySites path insideFunction entries, site.ternary.condition = name) ↔
        ∃ entry ∈ entries, entry.2.Asks name)
    (fun path insideFunction position items => ∀ name,
      (∃ site ∈ itemTernarySites path insideFunction position items,
        site.ternary.condition = name) ↔ ∃ item ∈ items, item.Asks name)
    ?_ ?_ ?_ ?_ ?_ ?_ ?_ path insideFunction value
  · intro path insideFunction items inside ih name
    rw [asks_array, ← ih name, ternarySitesAt]
    rfl
  · intro path insideFunction entries inside ih name
    rw [asks_object, ← ih name, ternarySitesAt]
    simp only [List.mem_append, or_and_right, exists_or]
    refine or_congr ?_ Iff.rfl
    cases Ternary.ofValue? (object entries) <;> simp
  · intro value path insideFunction harray hobject name
    have hsites : value.ternarySitesAt path insideFunction = [] := by
      cases value with
      | array items => exact absurd rfl (harray items)
      | object entries => exact absurd rfl (hobject entries)
      | _ => rfl
    rw [hsites]
    constructor
    · rintro ⟨site, hsite, -⟩
      cases hsite
    · intro h
      cases h with
      | @here _ ternary h =>
        cases value with
        | object entries => exact absurd rfl (hobject entries)
        | _ => cases h
      | item => exact absurd rfl (harray _)
      | entry => exact absurd rfl (hobject _)
  · intro path insideFunction position name
    simp [itemTernarySites]
  · intro path insideFunction position item items hitem hitems name
    rw [itemTernarySites, List.exists_mem_cons_iff, ← hitem name, ← hitems name]
    simp only [List.mem_append, or_and_right, exists_or]
  · intro path insideFunction name
    simp [entryTernarySites]
  · intro path insideFunction key value entries hvalue hentries name
    rw [entryTernarySites, List.exists_mem_cons_iff, ← hvalue name, ← hentries name]
    simp only [List.mem_append, or_and_right, exists_or]

/-- An item that is present comes before the others. -/
theorem itemsUnder_cons (scenario : Scenario) (item : Value) (items : List Value) :
    itemsUnder scenario (item :: items) =
      (under? scenario item).toList ++ itemsUnder scenario items := by
  rw [itemsUnder]
  cases under? scenario item <;> rfl

/-- An entry that is present comes before the others. -/
theorem entriesUnder_cons (scenario : Scenario) (key : String) (value : Value)
    (entries : List (String × Value)) :
    entriesUnder scenario ((key, value) :: entries) =
      ((under? scenario value).map fun shape => (key, shape)).toList ++
        entriesUnder scenario entries := by
  rw [entriesUnder]
  cases under? scenario value <;> rfl

end Value

/-- What leaving names open makes of constraints. -/
structure Constraints.Opened (names : List String) (before after : Constraints) : Prop where
  /-- They are about the names, too. -/
  mem_keys : ∀ name, name ∈ Entries.keys after ↔ name ∈ Entries.keys before ∨ name ∈ names
  /-- Whatever is new allows both truth values. -/
  mem_or_both : ∀ constraint ∈ after, constraint ∈ before ∨ constraint.2 = .both
  /-- No name occurs twice because of it. -/
  distinct : Entries.Distinct before → Entries.Distinct after

/-- One name may be left open. -/
theorem Constraints.Opened.leaveOpen (constraints : Constraints) (name : String) :
    Opened [name] constraints (constraints.leaveOpen name) := by
  unfold Constraints.leaveOpen
  split
  · next hcontains =>
    have hknown := Entries.contains_iff_mem_keys.mp hcontains
    refine ⟨fun other => ⟨.inl, fun hother => hother.elim id fun he => ?_⟩, fun _ h => .inl h, id⟩
    rwa [List.mem_singleton.mp he]
  · next hnew =>
    refine ⟨fun other => ?_, fun constraint hconstraint => ?_, fun h => h.insert name .both⟩
    · rw [Entries.keys_insert, if_neg hnew, List.mem_append]
    · rcases Entries.eq_or_mem_of_mem_insert hconstraint with rfl | hold
      · exact .inr rfl
      · exact .inl hold

/-- Names may be left open one after the other. -/
theorem Constraints.Opened.trans {first second : List String} {before middle after : Constraints}
    (hfirst : Opened first before middle) (hsecond : Opened second middle after) :
    Opened (first ++ second) before after := by
  refine ⟨fun name => ?_, fun constraint hconstraint => ?_,
    fun h => hsecond.distinct (hfirst.distinct h)⟩
  · rw [hsecond.mem_keys, hfirst.mem_keys, List.mem_append, or_assoc]
  · rcases hsecond.mem_or_both constraint hconstraint with hold | hboth
    · exact hfirst.mem_or_both constraint hold
    · exact .inr hboth

/-- Leaving names open changes nothing else. -/
theorem Constraints.opened (constraints : Constraints) (names : List String) :
    Opened names constraints (names.foldl Constraints.leaveOpen constraints) := by
  induction names generalizing constraints with
  | nil => exact ⟨fun _ => (or_iff_left List.not_mem_nil).symm, fun _ h => .inl h, id⟩
  | cons name names ih => exact (Opened.leaveOpen constraints name).trans (ih _)

/-- The constraints that leave given names open, each once. -/
structure Constraints.AllOpen (names : List String) (constraints : Constraints) : Prop where
  /-- They are about the names. -/
  mem_keys : ∀ name, name ∈ Entries.keys constraints ↔ name ∈ names
  /-- They allow both truth values. -/
  both : ∀ constraint ∈ constraints, constraint.2 = .both
  /-- No name occurs twice. -/
  distinct : Entries.Distinct constraints

/-- Leaving names open may start from nothing. -/
theorem Constraints.allOpen (names : List String) :
    (names.foldl Constraints.leaveOpen []).AllOpen names := by
  have h := Constraints.opened [] names
  refine ⟨fun name => (h.mem_keys name).trans (or_iff_right List.not_mem_nil), ?_,
    h.distinct List.nodup_nil⟩
  exact fun constraint hconstraint =>
    (h.mem_or_both constraint hconstraint).resolve_left List.not_mem_nil

/-- The names of the truth values in a world. -/
theorem World.keys_scenario (world : World) (index : ConditionIndex) (names : List String) :
    Entries.keys (world.scenario index names).truths = names := by
  rw [Entries.keys, World.scenario, List.map_map]
  exact List.map_id names

/-- A world gives names their truth values there. -/
theorem World.get?_scenario {world : World} {index : ConditionIndex} {names : List String}
    {name : String} {truth : Bool} : (world.scenario index names).get? name = some truth ↔
      name ∈ names ∧ world.truth index name = truth := by
  rw [World.scenario, Scenario.get?, Entries.get?_map_self]
  by_cases hname : name ∈ names
  · rw [if_pos hname, Option.some.injEq, and_iff_right hname]
  · simp [hname]

namespace Analysis

/-- The constraints that leave the ternaries inside a value open. -/
def ternaryConstraints (value : Value) : Constraints :=
  (ternaryConditions true value).foldl Constraints.leaveOpen []

/-- The conditions that are listed are those of the ternaries inside. -/
theorem mem_ternaryConditions {value : Value} {name : String} :
    name ∈ ternaryConditions true value ↔ value.Asks name := by
  rw [ternaryConditions, List.mem_map, ← Value.exists_mem_ternarySitesAt [] false value name]
  simp only [Bool.true_or, List.filter_true]
  rfl

/-- The conditions that are left open are those of the ternaries inside. -/
theorem mem_keys_ternaryConstraints {value : Value} {name : String} :
    name ∈ Entries.keys (ternaryConstraints value) ↔ value.Asks name := by
  rw [ternaryConstraints, (Constraints.allOpen _).mem_keys, mem_ternaryConditions]

/-- The truth values in a world on the conditions of the ternaries inside. -/
def scenarioIn (world : World) (index : ConditionIndex) (value : Value) : Scenario :=
  world.scenario index (Entries.keys (ternaryConstraints value))

/-- The conditions of the ternaries inside have their truth values in the world,
and there are no others. -/
theorem get?_scenarioIn {world : World} {index : ConditionIndex} {value : Value} {name : String}
    {truth : Bool} : (scenarioIn world index value).get? name = some truth ↔
      value.Asks name ∧ world.truth index name = truth := by
  rw [scenarioIn, World.get?_scenario, mem_keys_ternaryConstraints]

/-- No condition is decided twice. -/
theorem distinct_scenarioIn (world : World) (index : ConditionIndex) (value : Value) :
    Entries.Distinct (scenarioIn world index value).truths := by
  rw [Entries.Distinct, scenarioIn, World.keys_scenario]
  exact (Constraints.allOpen _).distinct

/-- If there is a ternary inside, a shape is listed for every scenario under
which the value is present and not left out. -/
theorem mem_flatten {analysis : Analysis} {value : Value} (hasks : ∃ name, value.Asks name)
    {preserveShape : Bool} {flattened : Flattened} :
    flattened ∈ analysis.flatten preserveShape value ↔
      ∃ scenario ∈ analysis.scenarios (ternaryConstraints value) analysis.region,
        flattened.scenario = some scenario ∧
        value.under? scenario = some flattened.value ∧
        (flattened.value.isEmptyObject = true → preserveShape = true) := by
  obtain ⟨name, hname⟩ := hasks
  have hkey := mem_keys_ternaryConstraints.mpr hname
  unfold flatten
  split
  · next hnone =>
    rw [ternaryConstraints, hnone] at hkey
    cases hkey
  · rw [List.mem_filterMap]
    refine exists_congr fun scenario => and_congr_right fun _ => ?_
    cases value.under? scenario with
    | none => simp
    | some shape =>
      dsimp only
      constructor
      · intro h
        split at h
        · cases h
        · next hkept =>
          cases h
          refine ⟨rfl, rfl, fun hempty => ?_⟩
          simpa [hempty] using hkept
      · rintro ⟨hscenario, hshape, hkept⟩
        obtain ⟨listed, form⟩ := flattened
        cases hscenario
        cases hshape
        refine if_neg fun hdropped => ?_
        rw [Bool.and_eq_true, Bool.not_eq_true'] at hdropped
        exact absurd (hkept hdropped.1) (by rw [hdropped.2]; decide)

section Builder

variable {analysis : Analysis} {index : ConditionIndex} {value : Value}

/-- A shape is listed with the truth values in a world exactly if it is the one
under them and is not left out. -/
theorem mem_flatten_world_iff (hbuilder : analysis.builder = index.builder)
    (hlegible : ∀ roots left right, index.Compares roots left right →
      left.Legible ∧ right.Legible)
    (hasks : ∃ name, value.Asks name) (hacyclic : ∀ name, value.Asks name → index.Acyclic name)
    (hlimit : ∀ scenarios,
      index.buildScenarios (ternaryConstraints value) analysis.region = .ok scenarios →
        scenarios.length < index.maxScenarios)
    {world : World} (hrespects : world.Respects index analysis.region) (shape : Value)
    (preserveShape : Bool) :
    ⟨some (scenarioIn world index value), shape⟩ ∈ analysis.flatten preserveShape value ↔
      value.under? (scenarioIn world index value) = some shape ∧
        (shape.isEmptyObject = true → preserveShape = true) := by
  have hnames : ∀ name ∈ Entries.keys (ternaryConstraints value), index.Acyclic name :=
    fun name hname => hacyclic name (mem_keys_ternaryConstraints.mp hname)
  have hallowed : ∀ constraint ∈ ternaryConstraints value,
      constraint.2.contains (world.truth index constraint.1) = true := by
    intro constraint hconstraint
    rw [(Constraints.allOpen _).both constraint hconstraint]
    cases world.truth index constraint.1 <;> rfl
  obtain ⟨choices, solver, hbuild, -⟩ := ConditionIndex.exists_choices analysis.region hnames
  have hscenario := ConditionIndex.scenario_mem_buildScenarios (hlegible _) hnames hbuild
    (hlimit _ hbuild) hrespects hallowed
  have hscenarios : analysis.builder.build (ternaryConstraints value) analysis.region =
      .ok (solver.enumerateFrom index choices [] index.maxScenarios) := by
    rw [hbuilder]
    exact hbuild
  rw [mem_flatten hasks]
  constructor
  · rintro ⟨listed, -, hlisted, hunder, hkept⟩
    cases hlisted
    exact ⟨hunder, hkept⟩
  · rintro ⟨hunder, hkept⟩
    refine ⟨_, ?_, rfl, hunder, hkept⟩
    rw [scenarios, hscenarios]
    exact hscenario

/-- The scenarios that decide the ternaries inside a value decide nothing else. -/
theorem isSome_get?_of_mem_scenarios (hbuilder : analysis.builder = index.builder)
    {region : Option String} {scenario : Scenario}
    (h : scenario ∈ analysis.scenarios (ternaryConstraints value) region) (name : String) :
    (scenario.get? name).isSome = true ↔ value.Asks name := by
  rw [scenarios, hbuilder] at h
  split at h
  · next built hbuild =>
    rw [Scenario.get?, ← Entries.contains_eq_isSome_get?, Entries.contains_iff_mem_keys,
      ConditionIndex.keys_of_mem_buildScenarios hbuild h, mem_keys_ternaryConstraints]
  · cases h

end Builder

/-- The properties of the worker. -/
def workerProperties : Value := .object [
  ("Source", .object [("Fn::If", .array [.string "IsProd",
    .object [("Ref", .string "Table")], .object [("Ref", .string "AWS::NoValue")]])]),
  ("Size", .object [("Fn::If", .array [.string "IsLocal", .string "small", .string "large"])])]

/-- Two conditions decide about them. -/
theorem asks_workerProperties : workerProperties.Asks "IsProd" ∧ workerProperties.Asks "IsLocal" :=
  ⟨.entry List.mem_cons_self (Value.asks_ternary _ _ _),
    .entry (List.mem_cons_of_mem _ List.mem_cons_self) (Value.asks_ternary _ _ _)⟩

end Analysis

end StackTemplate
