import Mathlib.Data.List.Nodup
import StackTemplate.Proofs.Scenarios

/-!
# The enumeration in full

Choices are made one at a time. They are given up as soon as they contradict
each other, and the enumeration stops at its limit. The result is the beginning
of a list that knows of neither: all ways to choose that are satisfiable as a
whole, in lexicographic order with true before false. No scenario is listed
twice, and a higher limit only adds scenarios at the end.
-/

namespace StackTemplate

namespace Scenario

/-- One scenario comes before another: for the first name on which they differ,
it has true and the other has false. -/
def Precedes (first second : Scenario) : Prop :=
  List.Lex (· > ·) (first.truths.map Prod.snd) (second.truths.map Prod.snd)

/-- No scenario comes before itself. -/
theorem Precedes.ne {first second : Scenario} (h : first.Precedes second) : first ≠ second := by
  have hirrefl : ∀ truth : Bool, ¬truth > truth := lt_irrefl
  rintro rfl
  exact List.lex_irrefl hirrefl _ h

/-- A scenario gives the constrained names, and no others, truth values from
their sets, in order. -/
def Obeys (scenario : Scenario) (constraints : Constraints) : Prop :=
  List.Forall₂ (fun constraint pair => pair.1 = constraint.1 ∧
    constraint.2.contains pair.2 = true) constraints scenario.truths

/-- A scenario that obeys constraints is about the constrained names. -/
theorem Obeys.keys_eq {scenario : Scenario} {constraints : Constraints}
    (h : scenario.Obeys constraints) :
    Entries.keys scenario.truths = Entries.keys constraints := by
  have hnames : List.Forall₂ (· = ·) (Entries.keys constraints) (Entries.keys scenario.truths) := by
    rw [Entries.keys, Entries.keys, List.forall₂_map_left_iff, List.forall₂_map_right_iff]
    exact h.imp fun _ _ hhere => hhere.1.symm
  exact (List.forall₂_eq_eq_eq ▸ hnames : Entries.keys constraints = _).symm

end Scenario

namespace Solver

variable {index : ConditionIndex} {region : Option String} {roots : String → Prop}
  {solver : Solver}

/-- All ways to choose, in lexicographic order with true before false. -/
def candidates : List Choice → List (List (Choice × Bool))
  | [] => [[]]
  | choice :: choices =>
    choice.truths.descending.flatMap fun truth =>
      (candidates choices).map fun made => (choice, truth) :: made

/-- The truth values listed for a set are its own. -/
theorem mem_descending_iff {truths : TruthSet} {truth : Bool} :
    truth ∈ truths.descending ↔ truths.contains truth = true :=
  ⟨fun h => (List.mem_filter.mp h).2, mem_descending⟩

/-- A way to choose makes every choice once and in order, within its set. -/
theorem mem_candidates {choices : List Choice} {made : List (Choice × Bool)} :
    made ∈ candidates choices ↔
      made.map Prod.fst = choices ∧ ∀ pair ∈ made, pair.1.truths.contains pair.2 = true := by
  induction choices generalizing made with
  | nil =>
    constructor
    · intro h
      rw [List.mem_singleton.mp h]
      exact ⟨rfl, fun _ hpair => absurd hpair List.not_mem_nil⟩
    · rintro ⟨hmade, -⟩
      exact List.mem_singleton.mpr (List.map_eq_nil_iff.mp hmade)
  | cons choice choices ih =>
    simp only [candidates, List.mem_flatMap, List.mem_map, mem_descending_iff, ih]
    constructor
    · rintro ⟨truth, htruth, rest, ⟨rfl, hrest⟩, rfl⟩
      exact ⟨rfl, List.forall_mem_cons.mpr ⟨htruth, hrest⟩⟩
    · rintro ⟨hmade, htruths⟩
      obtain ⟨pair, rest, rfl, rfl, hrest⟩ := List.map_eq_cons_iff.mp hmade
      obtain ⟨hhere, hlater⟩ := List.forall_mem_cons.mp htruths
      exact ⟨pair.2, hhere, rest, ⟨hrest, hlater⟩, rfl⟩

/-- The truth values of a scenario are those that were chosen. -/
theorem map_snd_scenarioOf (made : List (Choice × Bool)) :
    (scenarioOf made).truths.map Prod.snd = made.map Prod.snd := by
  rw [scenarioOf, List.map_map]
  rfl

/-- Ways to choose are listed in lexicographic order with true before false: two
that begin alike are ordered by the rest, others by how they begin. -/
theorem pairwise_candidates (choices : List Choice) :
    (candidates choices).Pairwise fun made other =>
      (scenarioOf made).Precedes (scenarioOf other) := by
  simp only [Scenario.Precedes, map_snd_scenarioOf]
  induction choices with
  | nil => exact List.pairwise_singleton _ _
  | cons choice choices ih =>
    have hdescending : choice.truths.descending.Pairwise (· > ·) :=
      List.Pairwise.filter _ (by decide)
    rw [candidates, List.pairwise_flatMap]
    constructor
    · intro truth _
      exact List.pairwise_map.mpr (ih.imp fun hlater => List.Lex.cons hlater)
    · refine hdescending.imp fun {truth other} hbefore made hmade second hsecond => ?_
      obtain ⟨rest, -, rfl⟩ := List.mem_map.mp hmade
      obtain ⟨others, -, rfl⟩ := List.mem_map.mp hsecond
      exact List.Lex.rel hbefore

/-- Contributions that are cut off at the limit make up a list that is. -/
theorem collectUpTo_eq_take {α : Type} {contribution : Bool → Nat → List α}
    {whole : Bool → List α}
    (h : ∀ truth limit, contribution truth limit = (whole truth).take limit) (limit : Nat)
    (truths : List Bool) :
    collectUpTo contribution limit truths = (truths.flatMap whole).take limit := by
  induction truths generalizing limit with
  | nil => rw [collectUpTo, List.flatMap_nil, List.take_nil]
  | cons truth truths ih =>
    rw [collectUpTo]
    split
    · next hzero => rw [hzero, List.take_zero]
    · have hremaining : limit - ((whole truth).take limit).length =
          limit - (whole truth).length := by
        rw [List.length_take]
        omega
      dsimp only
      rw [ih, h, hremaining, List.flatMap_cons, List.take_append]

/-- What is satisfiable together with more is satisfiable. -/
theorem satisfiable_of_subset (hsound : Sound index region roots solver)
    {goals more : List (Formula × Bool)} (hsubset : goals ⊆ more)
    (h : solver.satisfiable index more = true) : solver.satisfiable index goals = true := by
  obtain ⟨values, truth, hmodel, hgoals⟩ := exists_model_of_satisfiable hsound h
  have hrelevant : ∀ number ∈ relevantAtoms goals, number ∈ relevantAtoms more := by
    intro number hnumber
    obtain ⟨goal, hgoal, hatom⟩ := mem_relevantAtoms.mp hnumber
    exact mem_relevantAtoms.mpr ⟨goal, hsubset hgoal, hatom⟩
  have hrestricted : Model index solver (relevantAtoms goals) values truth :=
    ⟨fun number hnumber => hmodel.comparison number (hrelevant number hnumber),
      fun number hnumber => hmodel.allowed number (hrelevant number hnumber)⟩
  exact satisfiable_of_model hsound hrestricted fun goal hgoal => hgoals goal (hsubset hgoal)

/-- The scenarios of all ways to continue choices that are satisfiable as a
whole. -/
def scenariosFrom (index : ConditionIndex) (solver : Solver) (choices : List Choice)
    (chosen : List (Choice × Bool)) : List Scenario :=
  ((candidates choices).filter fun made =>
    solver.satisfiable index (goalsOf (chosen ++ made))).map fun made => scenarioOf (chosen ++ made)

/-- The scenarios that continue a choice are those of its truth values. -/
theorem scenariosFrom_cons (choice : Choice) (choices : List Choice)
    (chosen : List (Choice × Bool)) :
    solver.scenariosFrom index (choice :: choices) chosen =
      choice.truths.descending.flatMap fun truth =>
        solver.scenariosFrom index choices (chosen ++ [(choice, truth)]) := by
  simp only [scenariosFrom, candidates, List.filter_flatMap, List.filter_map, List.map_flatMap,
    List.map_map, Function.comp_def, List.append_assoc, List.singleton_append]

/-- Choices that contradict each other have no scenarios, however they go on. -/
theorem scenariosFrom_eq_nil (hsound : Sound index region roots solver)
    {chosen : List (Choice × Bool)}
    (h : ¬solver.satisfiable index (goalsOf chosen) = true) (choices : List Choice) :
    solver.scenariosFrom index choices chosen = [] := by
  have hnone : ∀ made ∈ candidates choices,
      ¬solver.satisfiable index (goalsOf (chosen ++ made)) = true := by
    intro made _ hsatisfiable
    refine h (satisfiable_of_subset hsound ?_ hsatisfiable)
    rw [goalsOf, goalsOf, List.map_append]
    exact List.subset_append_left _ _
  rw [scenariosFrom, List.filter_eq_nil_iff.mpr hnone, List.map_nil]

/-- The enumeration is the beginning of the list of all scenarios. -/
theorem enumerateFrom_eq_take (hsound : Sound index region roots solver)
    {choices : List Choice} {chosen : List (Choice × Bool)}
    (hchosen : solver.satisfiable index (goalsOf chosen) = true) (limit : Nat) :
    solver.enumerateFrom index choices chosen limit =
      (solver.scenariosFrom index choices chosen).take limit := by
  induction choices generalizing chosen limit with
  | nil =>
    have hall : solver.scenariosFrom index [] chosen = [scenarioOf chosen] := by
      simp [scenariosFrom, candidates, hchosen]
    rw [hall, enumerateFrom]
    split
    · next hzero => rw [hzero, List.take_zero]
    · next hpositive => exact (List.take_of_length_le (Nat.one_le_iff_ne_zero.mpr hpositive)).symm
  | cons choice choices ih =>
    rw [enumerateFrom, scenariosFrom_cons]
    refine collectUpTo_eq_take (fun truth limit => ?_) limit _
    dsimp only
    split
    · next hgoals => exact ih hgoals limit
    · next hgoals => rw [scenariosFrom_eq_nil hsound hgoals, List.take_nil]

/-- All scenarios of some choices, whatever their number. -/
def scenarios (index : ConditionIndex) (solver : Solver) (choices : List Choice) : List Scenario :=
  solver.scenariosFrom index choices []

/-- The scenarios of some choices are those of the satisfiable ways to choose. -/
theorem mem_scenarios {choices : List Choice} {scenario : Scenario} :
    scenario ∈ solver.scenarios index choices ↔
      ∃ made : List (Choice × Bool), made.map Prod.fst = choices ∧
        (∀ pair ∈ made, pair.1.truths.contains pair.2 = true) ∧
        solver.satisfiable index (goalsOf made) = true ∧ scenarioOf made = scenario := by
  simp only [scenarios, scenariosFrom, List.nil_append, List.mem_map, List.mem_filter,
    mem_candidates, and_assoc]

/-- Scenarios are listed in lexicographic order with true before false. -/
theorem pairwise_scenarios (index : ConditionIndex) (solver : Solver) (choices : List Choice) :
    (solver.scenarios index choices).Pairwise Scenario.Precedes := by
  rw [scenarios, scenariosFrom, List.pairwise_map]
  exact (pairwise_candidates choices).filter _

/-- No scenario is listed twice. -/
theorem nodup_scenarios (index : ConditionIndex) (solver : Solver) (choices : List Choice) :
    (solver.scenarios index choices).Nodup :=
  (pairwise_scenarios index solver choices).imp Scenario.Precedes.ne

/-- What is wanted of formulas can be read off the scenario of the choices. -/
theorem zipWith_scenarioOf (made : List (Choice × Bool)) :
    List.zipWith (fun choice pair => (choice.formula, pair.2)) (made.map Prod.fst)
      (scenarioOf made).truths = goalsOf made := by
  rw [scenarioOf, List.zipWith_map, List.zipWith_self, goalsOf]

/-- Choices are made within their sets if and only if their scenario obeys the
constraints that they come from. -/
theorem obeys_scenarioOf {made : List (Choice × Bool)} :
    (scenarioOf made).Obeys ((made.map Prod.fst).map fun choice => (choice.name, choice.truths)) ↔
      ∀ pair ∈ made, pair.1.truths.contains pair.2 = true := by
  rw [Scenario.Obeys, scenarioOf, List.map_map, List.forall₂_map_left_iff,
    List.forall₂_map_right_iff, List.forall₂_same]
  simp only [Function.comp_apply, true_and]

/-- A scenario that obeys constraints is that of choices made for them. -/
theorem exists_made_of_obeys {choices : List Choice} {scenario : Scenario}
    (h : scenario.Obeys (choices.map fun choice => (choice.name, choice.truths))) :
    ∃ made : List (Choice × Bool), made.map Prod.fst = choices ∧ scenarioOf made = scenario := by
  obtain ⟨truths⟩ := scenario
  rw [Scenario.Obeys, List.forall₂_map_left_iff] at h
  dsimp only at h
  simp only [scenarioOf, Scenario.mk.injEq]
  induction h with
  | nil => exact ⟨[], rfl, rfl⟩
  | @cons choice pair choices truths hhere _ ih =>
    obtain ⟨made, hmade, htruths⟩ := ih
    refine ⟨(choice, pair.2) :: made, ?_, ?_⟩
    · rw [List.map_cons, hmade]
    · rw [List.map_cons, htruths, ← hhere.1]

/-- The scenarios of some choices are those that obey the constraints and that
the search accepts. -/
theorem mem_scenarios_iff_obeys {choices : List Choice} {scenario : Scenario} :
    scenario ∈ solver.scenarios index choices ↔
      scenario.Obeys (choices.map fun choice => (choice.name, choice.truths)) ∧
        solver.satisfiable index (List.zipWith (fun choice pair => (choice.formula, pair.2))
          choices scenario.truths) = true := by
  rw [mem_scenarios]
  constructor
  · rintro ⟨made, rfl, htruths, hsatisfiable, rfl⟩
    rw [zipWith_scenarioOf]
    exact ⟨obeys_scenarioOf.mpr htruths, hsatisfiable⟩
  · rintro ⟨hobeys, hsatisfiable⟩
    obtain ⟨made, rfl, rfl⟩ := exists_made_of_obeys hobeys
    rw [zipWith_scenarioOf] at hsatisfiable
    exact ⟨made, rfl, obeys_scenarioOf.mp hobeys, hsatisfiable, rfl⟩

/-- Choices know the constraints that they come from. -/
theorem map_name_truths_of_right {constraints : Constraints} {choices : List Choice}
    (h : List.Forall₂ (Choice.Right index region solver) constraints choices) :
    choices.map (fun choice => (choice.name, choice.truths)) = constraints := by
  induction h with
  | nil => rfl
  | cons hhere _ ih => rw [List.map_cons, ih, hhere.name, hhere.truths]

/-- A list of all that there is to enumerate: the assignments that give the
constrained names truth values from their sets and whose formulas the search
accepts with these truth values, each once and in lexicographic order with true
before false. -/
structure Lists (index : ConditionIndex) (solver : Solver) (constraints : Constraints)
    (choices : List Choice) (all : List Scenario) : Prop where
  /-- All that is accepted is listed, and nothing else. -/
  mem_iff : ∀ scenario, scenario ∈ all ↔ scenario.Obeys constraints ∧
    solver.satisfiable index (List.zipWith (fun choice pair => (choice.formula, pair.2))
      choices scenario.truths) = true
  /-- What is listed earlier comes before what is listed later. -/
  ordered : all.Pairwise Scenario.Precedes

/-- The scenarios of choices are all that there is to enumerate. -/
theorem lists_scenarios {constraints : Constraints} {choices : List Choice}
    (hright : List.Forall₂ (Choice.Right index region solver) constraints choices) :
    solver.Lists index constraints choices (solver.scenarios index choices) where
  mem_iff scenario := by rw [mem_scenarios_iff_obeys, map_name_truths_of_right hright]
  ordered := pairwise_scenarios index solver choices

/-- The enumeration of the scenarios of constraints up to a limit. -/
def enumerate (index : ConditionIndex) (region : Option String) (constraints : Constraints)
    (limit : Nat) : Except ScenarioError (List Scenario) :=
  (compileChoices index region constraints {}).map fun found =>
    found.2.enumerateFrom index found.1 [] limit

/-- Once constraints are compiled, the enumeration is the beginning of the list
of all scenarios of their choices. -/
theorem enumerate_of_compileChoices {constraints : Constraints} {choices : List Choice}
    (hcompile : compileChoices index region constraints {} = .ok (choices, solver))
    (hsound : Sound index region roots solver) (limit : Nat) :
    enumerate index region constraints limit =
      .ok ((solver.scenarios index choices).take limit) := by
  rw [enumerate, hcompile, scenarios, ← enumerateFrom_eq_take hsound rfl]
  rfl

end Solver

namespace ConditionIndex

variable {index : ConditionIndex} {constraints : Constraints}

/-- Scenarios are built by enumerating them up to the limit of the index. -/
theorem buildScenarios_eq_enumerate (region : Option String) :
    index.buildScenarios constraints region =
      Solver.enumerate index region constraints index.maxScenarios := by
  rw [buildScenarios, Solver.enumerate, StateT.run]
  cases Solver.compileChoices index region constraints {} with
  | error error => rfl
  | ok found => rfl

/-- Once constraints are compiled, their scenarios are the first of all those of
their choices. -/
theorem buildScenarios_of_compileChoices {region : Option String} {roots : String → Prop}
    {choices : List Solver.Choice} {solver : Solver}
    (hcompile : Solver.compileChoices index region constraints {} = .ok (choices, solver))
    (hsound : Solver.Sound index region roots solver) :
    index.buildScenarios constraints region =
      .ok ((solver.scenarios index choices).take index.maxScenarios) := by
  rw [buildScenarios_eq_enumerate, Solver.enumerate_of_compileChoices hcompile hsound]

/-- The scenarios of acyclic constraints are the first of all those of their
choices, whose formulas say what the constrained conditions say. -/
theorem buildScenarios_eq_take (region : Option String)
    (hacyclic : ∀ name ∈ Entries.keys constraints, index.Acyclic name) :
    ∃ choices solver, index.buildScenarios constraints region =
        .ok ((solver.scenarios index choices).take index.maxScenarios) ∧
      Solver.Sound index region (· ∈ Entries.keys constraints) solver ∧
      List.Forall₂ (Solver.Choice.Right index region solver) constraints choices := by
  obtain ⟨choices, solver, hcompile, hsound, hright⟩ :=
    Solver.exists_compileChoices region hacyclic
  exact ⟨choices, solver, buildScenarios_of_compileChoices hcompile hsound, hsound, hright⟩

/-- An enumeration with a limit is the beginning of the list of everything that
there is to enumerate. So it lists no scenario twice, no more than the limit
allows, and only scenarios of just the constrained names, and a higher limit
only adds scenarios at the end. -/
theorem enumerate_eq_take (index : ConditionIndex) (region : Option String)
    (constraints : Constraints)
    (hacyclic : ∀ name ∈ Entries.keys constraints, index.Acyclic name) :
    index.buildScenarios constraints region =
        Solver.enumerate index region constraints index.maxScenarios ∧
      ∃ choices solver all,
        Solver.compileChoices index region constraints {} = .ok (choices, solver) ∧
        solver.Lists index constraints choices all ∧
        ∀ limit, ∃ scenarios,
          Solver.enumerate index region constraints limit = .ok scenarios ∧
          scenarios = all.take limit ∧ scenarios.Nodup ∧ scenarios.length ≤ limit ∧
          (∀ scenario ∈ scenarios, Entries.keys scenario.truths = Entries.keys constraints) ∧
          ∀ higher, limit ≤ higher → ∃ more,
            Solver.enumerate index region constraints higher = .ok (scenarios ++ more) := by
  obtain ⟨choices, solver, hcompile, hsound, hright⟩ :=
    Solver.exists_compileChoices region hacyclic
  have henumerate := Solver.enumerate_of_compileChoices hcompile hsound
  have hlists := Solver.lists_scenarios hright
  refine ⟨buildScenarios_eq_enumerate region, choices, solver, _, hcompile, hlists,
    fun limit => ⟨_, henumerate limit, rfl, ?_, List.length_take_le _ _, ?_, ?_⟩⟩
  · exact (solver.nodup_scenarios index choices).sublist (List.take_sublist _ _)
  · intro scenario hscenario
    exact ((hlists.mem_iff scenario).mp (List.mem_of_mem_take hscenario)).1.keys_eq
  · intro higher hle
    have hprefix : (solver.scenarios index choices).take limit <+:
        (solver.scenarios index choices).take higher := List.take_prefix_take_left hle
    obtain ⟨more, hmore⟩ := hprefix
    exact ⟨more, by rw [henumerate higher, hmore]⟩

theorem enumerate_eq_take_stage :
    ∃ more, Solver.enumerate (ofTemplate stageTemplate {}) none
        [("IsProd", .both), ("IsLive", .both)] 16 =
      .ok ([⟨[("IsProd", true), ("IsLive", true)]⟩, ⟨[("IsProd", false), ("IsLive", true)]⟩] ++
        more) := by
  obtain ⟨-, choices, solver, all, -, -, hlimit⟩ := enumerate_eq_take (ofTemplate stageTemplate {})
    none [("IsProd", .both), ("IsLive", .both)] fun name _ => acyclic_stageTemplate name
  obtain ⟨scenarios, henumerate, -, -, -, -, hhigher⟩ := hlimit 2
  have htwo : Solver.enumerate (ofTemplate stageTemplate {}) none
      [("IsProd", .both), ("IsLive", .both)] 2 =
      .ok [⟨[("IsProd", true), ("IsLive", true)]⟩, ⟨[("IsProd", false), ("IsLive", true)]⟩] := by
    decide +kernel
  rw [htwo, Except.ok.injEq] at henumerate
  rw [henumerate]
  exact hhigher 16 (by decide)

end ConditionIndex

end StackTemplate
