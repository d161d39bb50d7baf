import StackTemplate.Proofs.World

/-!
# Enumerated scenarios and worlds

The enumeration of scenarios loses no world: unless it was cut off, the truth
values that constrained conditions have in a world are among its results. On
comparisons of parameters with texts it also invents none: every result is what
the conditions come to in some world.
-/

namespace StackTemplate

namespace Solver

variable {index : ConditionIndex} {region : Option String} {roots : String → Prop}
  {solver : Solver}

section Collecting

variable {α : Type} {contribution : Bool → Nat → List α}

/-- Whatever is collected was contributed by one of the truth values. -/
theorem exists_of_mem_collectUpTo {truths : List Bool} {limit : Nat} {element : α}
    (h : element ∈ collectUpTo contribution limit truths) :
    ∃ truth ∈ truths, ∃ remaining, element ∈ contribution truth remaining := by
  induction truths generalizing limit with
  | nil => cases h
  | cons truth truths ih =>
    rw [collectUpTo] at h
    split at h
    · cases h
    · rcases List.mem_append.mp h with hhere | hrest
      · exact ⟨truth, List.mem_cons_self, limit, hhere⟩
      · obtain ⟨other, hother, hcontribution⟩ := ih hrest
        exact ⟨other, List.mem_cons_of_mem _ hother, hcontribution⟩

/-- If the limit was not reached, it was reached by no contribution, and all of
each was collected. -/
theorem subset_collectUpTo {truths : List Bool} {limit : Nat}
    (hlimit : (collectUpTo contribution limit truths).length < limit) {truth : Bool}
    (htruth : truth ∈ truths) :
    ∃ remaining, (contribution truth remaining).length < remaining ∧
      contribution truth remaining ⊆ collectUpTo contribution limit truths := by
  induction truths generalizing limit with
  | nil => cases htruth
  | cons first truths ih =>
    have hpositive : limit ≠ 0 := by omega
    rw [collectUpTo, if_neg hpositive, List.length_append] at hlimit
    rw [collectUpTo, if_neg hpositive]
    rcases List.mem_cons.mp htruth with rfl | hlater
    · exact ⟨limit, by omega, List.subset_append_left _ _⟩
    · have hrest : (collectUpTo contribution (limit - (contribution first limit).length)
          truths).length < limit - (contribution first limit).length := by omega
      obtain ⟨remaining, hremaining, hsubset⟩ := ih hrest hlater
      exact ⟨remaining, hremaining, List.subset_append_of_subset_right _ hsubset⟩

end Collecting

/-- The truth values wanted of formulas once choices were made. -/
def goalsOf (chosen : List (Choice × Bool)) : List (Formula × Bool) :=
  chosen.map fun pair => (pair.1.formula, pair.2)

/-- The scenario of choices that were made. -/
def scenarioOf (chosen : List (Choice × Bool)) : Scenario :=
  ⟨chosen.map fun pair => (pair.1.name, pair.2)⟩

/-- Choices that have the truth values of their formulas are those that a
valuation makes. -/
theorem map_holds_eq {choices : List Choice} {made : List (Choice × Bool)} {truth : Nat → Bool}
    (hmade : made.map Prod.fst = choices)
    (h : ∀ pair ∈ made, pair.1.formula.holds truth = pair.2) :
    choices.map (fun choice => (choice, choice.formula.holds truth)) = made := by
  rw [← hmade, List.map_map]
  refine (List.map_congr_left fun pair hpair => ?_).trans (List.map_id made)
  exact Prod.ext rfl (h pair hpair)

/-- The choices that the truth values of keys make are what the constrained
names come to. -/
theorem scenarioOf_map_holds {constraints : Constraints} {choices : List Choice}
    (hright : List.Forall₂ (Choice.Right index region solver) constraints choices)
    (keys : String → Bool) :
    scenarioOf (choices.map fun choice =>
        (choice, choice.formula.holds (solver.valuation keys))) =
      ⟨(Entries.keys constraints).map fun name =>
        (name, index.truth (.ofKeys index region keys) name)⟩ := by
  rw [scenarioOf, Scenario.mk.injEq, List.map_map]
  induction hright with
  | nil => rfl
  | @cons constraint choice constraints choices hhere _ ih =>
    rw [List.map_cons, ih]
    exact List.cons_eq_cons.mpr ⟨Prod.ext hhere.name (hhere.denotes.holds keys), rfl⟩

/-- A truth value of a set is one of those listed. -/
theorem mem_descending {truths : TruthSet} {truth : Bool} (h : truths.contains truth = true) :
    truth ∈ truths.descending := by
  refine List.mem_filter.mpr ⟨?_, h⟩
  cases truth <;> decide

/-- A valuation under which all that it makes true is satisfiable is found,
unless the enumeration is cut off. -/
theorem mem_enumerateFrom {truth : Nat → Bool}
    (hsatisfiable : ∀ goals : List (Formula × Bool),
      (∀ goal ∈ goals, goal.1.holds truth = goal.2) → solver.satisfiable index goals = true)
    {choices : List Choice} {chosen : List (Choice × Bool)} {limit : Nat}
    (hchosen : ∀ pair ∈ chosen, pair.1.formula.holds truth = pair.2)
    (htruths : ∀ choice ∈ choices, choice.truths.contains (choice.formula.holds truth) = true)
    (hlimit : (solver.enumerateFrom index choices chosen limit).length < limit) :
    scenarioOf (chosen ++ choices.map fun choice => (choice, choice.formula.holds truth)) ∈
      solver.enumerateFrom index choices chosen limit := by
  induction choices generalizing chosen limit with
  | nil =>
    have hpositive : limit ≠ 0 := by omega
    rw [enumerateFrom, if_neg hpositive, List.map_nil, List.append_nil]
    exact List.mem_singleton_self _
  | cons choice choices ih =>
    have hextended : ∀ pair ∈ chosen ++ [(choice, choice.formula.holds truth)],
        pair.1.formula.holds truth = pair.2 := by
      intro pair hpair
      rcases List.mem_append.mp hpair with hpair | hpair
      · exact hchosen pair hpair
      · rw [List.mem_singleton.mp hpair]
    have hgoals : solver.satisfiable index
        (goalsOf (chosen ++ [(choice, choice.formula.holds truth)])) = true := by
      refine hsatisfiable _ fun goal hgoal => ?_
      obtain ⟨pair, hpair, rfl⟩ := List.mem_map.mp hgoal
      exact hextended pair hpair
    have hhere := mem_descending (htruths choice List.mem_cons_self)
    rw [enumerateFrom] at hlimit ⊢
    obtain ⟨remaining, hremaining, hsubset⟩ := subset_collectUpTo hlimit hhere
    refine hsubset ?_
    rw [goalsOf] at hgoals
    simp only [hgoals, if_true] at hremaining ⊢
    have hrest := ih hextended (fun other hother => htruths other (List.mem_cons_of_mem _ hother))
      hremaining
    rwa [List.append_assoc, List.singleton_append] at hrest

/-- Whatever is enumerated continues the choices made by satisfiable ones. -/
theorem exists_of_mem_enumerateFrom {choices : List Choice} {chosen : List (Choice × Bool)}
    {limit : Nat} (hchosen : solver.satisfiable index (goalsOf chosen) = true)
    {scenario : Scenario} (h : scenario ∈ solver.enumerateFrom index choices chosen limit) :
    ∃ added : List (Choice × Bool), added.map Prod.fst = choices ∧
      scenario = scenarioOf (chosen ++ added) ∧
      solver.satisfiable index (goalsOf (chosen ++ added)) = true := by
  induction choices generalizing chosen limit with
  | nil =>
    rw [enumerateFrom] at h
    split at h
    · cases h
    · refine ⟨[], rfl, ?_, ?_⟩
      · rw [List.append_nil]
        exact List.mem_singleton.mp h
      · rwa [List.append_nil]
  | cons choice choices ih =>
    rw [enumerateFrom] at h
    obtain ⟨truth, -, remaining, hhere⟩ := exists_of_mem_collectUpTo h
    dsimp only at hhere
    split at hhere
    · next hgoals =>
      obtain ⟨added, hadded, hscenario, hsatisfiable⟩ := ih hgoals hhere
      rw [List.append_assoc, List.singleton_append] at hscenario hsatisfiable
      exact ⟨(choice, truth) :: added, by rw [List.map_cons, hadded], hscenario, hsatisfiable⟩
    · cases hhere

/-- Choices are about the constrained names, in order. -/
theorem names_of_compileChoices {constraints : Constraints} {before after : Solver}
    {choices : List Choice}
    (h : compileChoices index region constraints before = .ok (choices, after)) :
    choices.map Choice.name = Entries.keys constraints := by
  induction constraints generalizing before choices with
  | nil =>
    cases h
    rfl
  | cons constraint constraints ih =>
    obtain ⟨formula, middle, -, h⟩ := Compilation.exists_of_bind_eq_ok h
    obtain ⟨others, last, hothers, h⟩ := Compilation.exists_of_bind_eq_ok h
    cases h
    rw [List.map_cons, ih hothers]
    rfl

end Solver

/-- The truth values that names have in a world. -/
def World.scenario (world : World) (index : ConditionIndex) (names : List String) : Scenario :=
  ⟨names.map fun name => (name, world.truth index name)⟩

/-- A stack with a table in production only, and a worker that uses the table
if there is one. -/
def stageTemplate : Template where
  root := .object [
    ("Parameters", .object [("Stage", .object [("Type", .string "String"),
      ("AllowedValues", .array [.string "prod", .string "dev"])])]),
    ("Conditions", .object [
      ("IsProd", .object [("Fn::Equals", .array [.object [("Ref", .string "Stage")],
        .string "prod"])]),
      ("IsLocal", .object [("Fn::Equals", .array [.object [("Ref", .string "AWS::Region")],
        .string "eu-west-1"])]),
      ("IsLive", .object [("Fn::Or", .array [.object [("Condition", .string "IsProd")],
        .object [("Fn::Not", .array [.object [("Condition", .string "IsLocal")]])]])])]),
    ("Resources", .object [
      ("Table", .object [("Condition", .string "IsProd")]),
      ("Worker", .object [("Condition", .string "IsLive"), ("Properties", .object [
        ("Source", .object [("Fn::If", .array [.string "IsProd",
          .object [("Ref", .string "Table")], .object [("Ref", .string "AWS::NoValue")]])]),
        ("Size", .object [("Fn::If", .array [.string "IsLocal",
          .string "small", .string "large"])])])])])]

/-- The stack deployed for a stage in a region. -/
def stageWorld (stage region : String) : World where
  parameter name := if name = "AWS::Region" then region else stage
  pair _ := false
  unknown _ := false
  undefined _ := false

namespace ConditionIndex

variable {index : ConditionIndex} {region : Option String} {constraints : Constraints}

/-- The scenarios of acyclic constraints are enumerated over choices whose
formulas say what the constrained conditions say. -/
theorem exists_choices (region : Option String)
    (hacyclic : ∀ name ∈ Entries.keys constraints, index.Acyclic name) :
    ∃ choices solver, index.buildScenarios constraints region =
        .ok (Solver.enumerateFrom index solver choices [] index.maxScenarios) ∧
      Solver.Sound index region (· ∈ Entries.keys constraints) solver ∧
      List.Forall₂ (Solver.Choice.Right index region solver) constraints choices := by
  obtain ⟨choices, solver, hcompile, hsound, hright⟩ :=
    Solver.exists_compileChoices region hacyclic
  refine ⟨choices, solver, ?_, hsound, hright⟩
  unfold buildScenarios
  rw [StateT.run, hcompile]

/-- The choices of a world are the truth values of the constrained names. -/
theorem scenarioOf_choices {solver : Solver} {choices : List Solver.Choice} {world : World}
    (hright : List.Forall₂ (Solver.Choice.Right index region solver) constraints choices)
    (hagree : ∀ name ∈ Entries.keys constraints,
      index.truth (.ofKeys index region world.keys) name = world.truth index name) :
    Solver.scenarioOf (choices.map fun choice =>
        (choice, choice.formula.holds (solver.valuation world.keys))) =
      world.scenario index (Entries.keys constraints) := by
  rw [Solver.scenarioOf_map_holds hright, World.scenario, Scenario.mk.injEq]
  exact List.map_congr_left fun name hname => Prod.ext rfl (hagree name hname)

/-- Whatever is enumerated is about the constrained names, in order. -/
theorem keys_of_mem_buildScenarios {scenarios : List Scenario}
    (hbuild : index.buildScenarios constraints region = .ok scenarios) {scenario : Scenario}
    (h : scenario ∈ scenarios) : Entries.keys scenario.truths = Entries.keys constraints := by
  unfold buildScenarios at hbuild
  split at hbuild
  · cases hbuild
  · next choices solver hcompile =>
    cases hbuild
    obtain ⟨chosen, hchosen, rfl, -⟩ := Solver.exists_of_mem_enumerateFrom rfl h
    rw [← Solver.names_of_compileChoices hcompile, ← hchosen, Entries.keys, Solver.scenarioOf,
      List.map_map, List.map_map]
    rfl

/-- The truth values of a world are enumerated, if the constraints allow them
and the enumeration is not cut off. -/
theorem scenario_mem_buildScenarios
    (hlegible : ∀ left right, index.Compares (· ∈ Entries.keys constraints) left right →
      left.Legible ∧ right.Legible)
    (hacyclic : ∀ name ∈ Entries.keys constraints, index.Acyclic name) {scenarios : List Scenario}
    (hbuild : index.buildScenarios constraints region = .ok scenarios)
    (hlimit : scenarios.length < index.maxScenarios) {world : World}
    (hrespects : world.Respects index region)
    (hallowed : ∀ constraint ∈ constraints,
      constraint.2.contains (world.truth index constraint.1) = true) :
    world.scenario index (Entries.keys constraints) ∈ scenarios := by
  obtain ⟨choices, solver, hchoices, hsound, hright⟩ := exists_choices region hacyclic
  rw [hbuild, Except.ok.injEq] at hchoices
  subst hchoices
  have hagree : ∀ name ∈ Entries.keys constraints,
      index.truth (.ofKeys index region world.keys) name = world.truth index name :=
    fun name hname => World.truth_ofKeys hrespects hlegible (.root hname)
  rw [← scenarioOf_choices hright hagree]
  refine Solver.mem_enumerateFrom (fun goals hgoals => ?_) (by simp) ?_ hlimit
  · exact World.satisfiable hrespects hsound hlegible hgoals
  · intro choice hchoice
    obtain ⟨constraint, hconstraint, hhere⟩ := Solver.exists_of_forall₂ hright hchoice
    rw [hhere.truths, hhere.denotes.holds world.keys,
      hagree constraint.1 (List.mem_map_of_mem hconstraint)]
    exact hallowed constraint hconstraint

/-- Enumeration over acyclic names succeeds and loses no world: if it is not
cut off, the truth values that the names have in a world are among the results
whenever the constraints allow them. -/
theorem buildScenarios_covers_worlds (template : Template) (settings : Settings)
    (region : Option String) (constraints : Constraints)
    (hplain : (ofTemplate template settings).PlainNames)
    (hacyclic : ∀ name ∈ Entries.keys constraints,
      (ofTemplate template settings).Acyclic name) :
    ∃ scenarios, (ofTemplate template settings).buildScenarios constraints region =
        .ok scenarios ∧
      ∀ world : World, world.Respects (ofTemplate template settings) region →
        (∀ constraint ∈ constraints,
          constraint.2.contains (world.truth (ofTemplate template settings) constraint.1) =
            true) →
        scenarios.length < (ofTemplate template settings).maxScenarios →
        world.scenario (ofTemplate template settings) (Entries.keys constraints) ∈
          scenarios := by
  obtain ⟨choices, solver, hbuild, -⟩ := exists_choices region hacyclic
  refine ⟨_, hbuild, fun world hrespects hallowed hlimit => ?_⟩
  exact scenario_mem_buildScenarios (fun _ _ => legible_ofTemplate hplain) hacyclic hbuild hlimit
    hrespects hallowed

/-- No condition of the stack refers to itself. -/
theorem acyclic_stageTemplate (name : String) : (ofTemplate stageTemplate {}).Acyclic name :=
  acyclic_of_rank (fun other => if other = "IsLive" then 1 else 0) (by decide) name

theorem buildScenarios_covers_stageWorld :
    ∃ scenarios, (ofTemplate stageTemplate {}).buildScenarios
        [("IsProd", .both), ("IsLive", .both)] none = .ok scenarios ∧
      ⟨[("IsProd", false), ("IsLive", false)]⟩ ∈ scenarios := by
  obtain ⟨scenarios, hbuild, hworlds⟩ := buildScenarios_covers_worlds stageTemplate {} none
    [("IsProd", .both), ("IsLive", .both)] (by decide) fun name _ => acyclic_stageTemplate name
  have hlength : ((ofTemplate stageTemplate {}).buildScenarios
      [("IsProd", .both), ("IsLive", .both)] none).map List.length = .ok 3 := by decide +kernel
  rw [hbuild] at hlength
  have hlimit : scenarios.length < (ofTemplate stageTemplate {}).maxScenarios := by
    rw [Except.ok.inj hlength]
    decide
  have hrespects : (stageWorld "dev" "eu-west-1").Respects (ofTemplate stageTemplate {}) none :=
    .of_entries (by simp) (by decide)
  exact ⟨scenarios, hbuild, hworlds _ hrespects (by decide) hlimit⟩

/-- Whatever is enumerated are the truth values of some world. -/
theorem exists_world_of_mem_buildScenarios
    (hlegible : ∀ left right, index.Compares (· ∈ Entries.keys constraints) left right →
      left.Legible ∧ right.Legible)
    (hacyclic : ∀ name ∈ Entries.keys constraints, index.Acyclic name)
    (hnonempty : ∀ parameter, index.allowed? parameter ≠ some []) {scenarios : List Scenario}
    (hbuild : index.buildScenarios constraints region = .ok scenarios) {scenario : Scenario}
    (h : scenario ∈ scenarios) :
    ∃ world : World, world.Respects index region ∧
      scenario = world.scenario index (Entries.keys constraints) := by
  obtain ⟨choices, solver, hchoices, hsound, hright⟩ := exists_choices region hacyclic
  rw [hbuild, Except.ok.injEq] at hchoices
  subst hchoices
  obtain ⟨chosen, hchosen, rfl, hsatisfiable⟩ := Solver.exists_of_mem_enumerateFrom rfl h
  rw [List.nil_append] at hsatisfiable ⊢
  have hbounded : ∀ goal ∈ Solver.goalsOf chosen, ∀ number ∈ goal.1.atoms,
      number < solver.atoms.length := by
    intro goal hgoal
    obtain ⟨pair, hpair, rfl⟩ := List.mem_map.mp hgoal
    have hchoice : pair.1 ∈ choices := hchosen ▸ List.mem_map_of_mem hpair
    obtain ⟨constraint, -, hhere⟩ := Solver.exists_of_forall₂ hright hchoice
    exact hhere.denotes.bounded
  obtain ⟨world, hrespects, hgoals⟩ :=
    World.exists_of_satisfiable hsound hlegible hnonempty hbounded hsatisfiable
  refine ⟨world, hrespects, ?_⟩
  have hmade : choices.map (fun choice =>
      (choice, choice.formula.holds (solver.valuation world.keys))) = chosen :=
    Solver.map_holds_eq hchosen fun pair hpair => hgoals _ (List.mem_map_of_mem hpair)
  rw [← hmade]
  exact scenarioOf_choices hright fun name hname =>
    World.truth_ofKeys hrespects hlegible (.root hname)

end ConditionIndex

/-- The comparisons that are fully understood: of two texts, of a parameter with
a text, and of a parameter with itself. -/
def Operand.Elementary : Operand → Operand → Prop
  | .literal _, .literal _ => True
  | .ref _, .literal _ => True
  | .literal _, .ref _ => True
  | .ref left, .ref right => left = right
  | _, _ => False

instance : (left right : Operand) → Decidable (left.Elementary right)
  | .literal _, .literal _ => inferInstanceAs (Decidable True)
  | .ref _, .literal _ => inferInstanceAs (Decidable True)
  | .literal _, .ref _ => inferInstanceAs (Decidable True)
  | .ref left, .ref right => inferInstanceAs (Decidable (left = right))
  | .literal _, .other _ => inferInstanceAs (Decidable False)
  | .ref _, .other _ => inferInstanceAs (Decidable False)
  | .other _, _ => inferInstanceAs (Decidable False)

namespace Operand.Elementary

variable {left right : Operand}

/-- What is fully understood can be told apart. -/
theorem legible (h : left.Elementary right) (hleft : left.Plain) (hright : right.Plain) :
    left.Legible ∧ right.Legible := by
  cases left with
  | literal _ => cases right with
    | literal _ => exact ⟨trivial, trivial⟩
    | ref _ => exact ⟨trivial, hright⟩
    | other _ => cases h
  | ref _ => cases right with
    | literal _ => exact ⟨hleft, trivial⟩
    | ref _ => exact ⟨hleft, hright⟩
    | other _ => cases h
  | other _ => cases right <;> cases h

/-- What is fully understood depends on the values of parameters only. -/
theorem equal_eq (h : left.Elementary right) {first second : World}
    (hparameter : first.parameter = second.parameter) :
    first.equal left right = second.equal left right := by
  cases left with
  | literal _ => cases right with
    | literal _ => rfl
    | ref _ => rw [World.equal, World.equal, hparameter]
    | other _ => cases h
  | ref _ => cases right with
    | literal _ => rw [World.equal, World.equal, hparameter]
    | ref _ =>
      cases h
      simp only [World.equal, beq_self_eq_true, Bool.true_or]
    | other _ => cases h
  | other _ => cases right <;> cases h

end Operand.Elementary

namespace ConditionIndex

/-- Where all comparisons are fully understood, every enumerated scenario is
what the constrained names come to for some values of parameters and some truth
values of what is unknown or undefined, whatever pairs of operands may be. -/
theorem buildScenarios_realised (index : ConditionIndex) (region : Option String)
    (constraints : Constraints) (hplain : index.PlainNames)
    (hacyclic : ∀ name ∈ Entries.keys constraints, index.Acyclic name)
    (helementary : ∀ left right, index.Compares (· ∈ Entries.keys constraints) left right →
      left.Elementary right)
    (hnonempty : ∀ parameter, index.allowed? parameter ≠ some []) (pair : Sym2 Operand → Bool) :
    ∃ scenarios, index.buildScenarios constraints region = .ok scenarios ∧
      ∀ scenario ∈ scenarios, ∃ world : World, world.pair = pair ∧
        world.Respects index region ∧
        scenario = world.scenario index (Entries.keys constraints) := by
  have hlegible : ∀ left right, index.Compares (· ∈ Entries.keys constraints) left right →
      left.Legible ∧ right.Legible := by
    intro left right hcompares
    obtain ⟨hleft, hright⟩ := hplain.of_compares hcompares
    exact (helementary left right hcompares).legible hleft hright
  obtain ⟨choices, solver, hbuild, -⟩ := exists_choices region hacyclic
  refine ⟨_, hbuild, fun scenario hscenario => ?_⟩
  obtain ⟨world, hrespects, rfl⟩ :=
    exists_world_of_mem_buildScenarios hlegible hacyclic hnonempty hbuild hscenario
  let other : World := { world with pair }
  have hunknown : world.meaning.unknown = other.meaning.unknown := rfl
  have hundefined : world.meaning.undefined = other.meaning.undefined := rfl
  have hequal : ∀ left right, index.Compares (· ∈ Entries.keys constraints) left right →
      world.meaning.equal left right = other.meaning.equal left right :=
    fun left right hcompares => (helementary left right hcompares).equal_eq rfl
  refine ⟨other, rfl, ⟨hrespects.given, hrespects.allowed⟩, ?_⟩
  rw [World.scenario, World.scenario, Scenario.mk.injEq]
  refine List.map_congr_left fun name hname => Prod.ext rfl ?_
  exact truth_congr hunknown hundefined hequal (.root hname)

theorem buildScenarios_realised_stage :
    ∃ scenarios, (ofTemplate stageTemplate {}).buildScenarios
        [("IsProd", .both), ("IsLive", .both)] none = .ok scenarios ∧
      ∀ scenario ∈ scenarios, ∃ world : World, world.pair = (fun _ => false) ∧
        world.Respects (ofTemplate stageTemplate {}) none ∧
        scenario = world.scenario (ofTemplate stageTemplate {}) ["IsProd", "IsLive"] := by
  have helementary : ∀ entry ∈ (ofTemplate stageTemplate {}).conditions,
      ∀ pair ∈ entry.2.comparisons, pair.1.Elementary pair.2 := by decide
  have hnonempty : ∀ entry ∈ (ofTemplate stageTemplate {}).allowedValues, entry.2 ≠ [] := by
    decide
  refine buildScenarios_realised (ofTemplate stageTemplate {}) none
    [("IsProd", .both), ("IsLive", .both)] (by decide) (fun name _ => acyclic_stageTemplate name)
    ?_ ?_ fun _ => false
  · rintro left right ⟨name, expr, -, hexpr, hpair⟩
    exact helementary (name, expr) (Entries.mem_of_get? hexpr) (left, right) hpair
  · intro parameter hallowed
    exact hnonempty (parameter, []) (Entries.mem_of_get? hallowed) rfl

end ConditionIndex

end StackTemplate
