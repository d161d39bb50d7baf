import StackTemplate.Analysis.Flattening
import StackTemplate.Analysis.PathConditions
import StackTemplate.Condition.Solver

/-!
# Analysis of a template

An analysis answers which conditions gate a place of the template, which
scenarios decide the ternaries below it, which shapes a value can take, and
whether a reference to a guarded resource can dangle. Every question has an
answer: cyclic conditions have no scenarios, and malformed ternaries and guards
restrict nothing. Answers about paths are remembered.
-/

namespace StackTemplate

/-- What turns constraints into scenarios. -/
structure ScenarioBuilder where
  /-- The scenarios that satisfy constraints, in a region or in any. -/
  build : Constraints → Option String → Except ScenarioError (List Scenario)
  /-- Whether a condition holds in every completion of a scenario. -/
  implies : Scenario → String → Bool

/-- The builder that searches the conditions of a template. -/
def ConditionIndex.builder (index : ConditionIndex) : ScenarioBuilder :=
  ⟨index.buildScenarios, index.checkImplies⟩

/-- An analysis of one template. -/
structure Analysis where
  /-- The whole document. -/
  template : Template
  /-- What turns constraints into scenarios. -/
  builder : ScenarioBuilder
  /-- The region that decides comparisons with the region. -/
  region : Option String
  /-- The answers about paths given so far. -/
  answers : List (PathQuery × Constraints) := []

namespace Analysis

/-- The answer to a question about a path that was given before. -/
def remembered? (analysis : Analysis) (query : PathQuery) : Option Constraints :=
  (analysis.answers.find? fun answer => answer.1 = query).map Prod.snd

/-- The conditions that gate a path, with the truth values they may take. -/
def conditionsAlong (analysis : Analysis) (query : PathQuery) : Constraints × Analysis :=
  match analysis.remembered? query with
  | some constraints => (constraints, analysis)
  | none =>
    let constraints := query.constraints analysis.template.root
    (constraints, { analysis with answers := (query, constraints) :: analysis.answers })

/-- The scenarios that satisfy constraints; none if conditions are cyclic. -/
def scenarios (analysis : Analysis) (constraints : Constraints) (region : Option String) :
    List Scenario :=
  match analysis.builder.build constraints region with
  | .ok scenarios => scenarios
  | .error _ => []

/-- The conditions of the ternaries inside a value, in order. -/
def ternaryConditions (insideFunctions : Bool) (value : Value) : List String :=
  (value.ternarySites.filter fun site => insideFunctions || !site.insideFunction).map
    fun site => site.ternary.condition

/-- The scenarios that decide every ternary below a path and agree with the
conditions that gate it. There are none without a ternary below. -/
def scenariosBelow (analysis : Analysis) (path : Path) (insideFunctions : Bool)
    (region : Option String) : List Scenario × Analysis :=
  match analysis.template.root.lookup path with
  | none => ([], analysis)
  | some part =>
    let (gating, analysis) := analysis.conditionsAlong ⟨path, insideFunctions, false⟩
    match ternaryConditions insideFunctions part with
    | [] => ([], analysis)
    | names => (analysis.scenarios (names.foldl Constraints.leaveOpen gating) region, analysis)

/-- The shapes that a value can take, one for every scenario. Scenarios in
which the whole value is absent have none, and empty mappings only count where
shapes are preserved. -/
def flatten (analysis : Analysis) (preserveShape : Bool) (value : Value) : List Flattened :=
  match ternaryConditions true value with
  | [] => [⟨none, value⟩]
  | names =>
    (analysis.scenarios (names.foldl Constraints.leaveOpen []) analysis.region).filterMap
      fun scenario =>
        match value.under? scenario with
        | none => none
        | some shape =>
          if shape.isEmptyObject && !preserveShape then none else some ⟨some scenario, shape⟩

/-- The scenario of the conditions that constraints leave no choice for, except
one name. -/
def decided (constraints : Constraints) (except : String) : Scenario :=
  ⟨constraints.filterMap fun (name, truths) =>
    if name = except then none else truths.single?.map fun truth => (name, truth)⟩

/-- Whether a guard holds wherever constraints do. -/
def guarded (analysis : Analysis) (constraints : Constraints) (guard : String) : Bool :=
  let scenario := decided constraints guard
  match Entries.get? guard constraints with
  | some truths =>
    match truths.single? with
    | some truth => truth
    | none => analysis.builder.implies scenario guard
  | none => if scenario.isEmpty then false else analysis.builder.implies scenario guard

/-- The scenarios in which a path is reached although the resource it refers to
is not created. There are none if the reference is safe. -/
def danglingScenarios (analysis : Analysis) (path : Path) (resource : String) :
    List Scenario × Analysis :=
  match analysis.template.resourceCondition? resource with
  | none => ([], analysis)
  | some guard =>
    let (constraints, analysis) := analysis.conditionsAlong ⟨path, true, false⟩
    if analysis.guarded constraints guard then ([], analysis)
    else ([(decided constraints guard).insert guard false], analysis)

end Analysis

end StackTemplate
