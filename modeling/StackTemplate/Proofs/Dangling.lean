import StackTemplate.Proofs.Coverage
import StackTemplate.Proofs.Enumeration

/-!
# Scenarios of dangling references

A reference is reported to dangle in the scenario of the conditions that its
path decides, with the guard of the resource false. The scenario is satisfiable
exactly if the guard does not follow from those conditions. Where this is not
asked, because the path fixes the guard to be false or decides nothing, the
scenario may be one that never occurs.
-/

namespace StackTemplate

/-- The constraints that leave the truth values of a scenario only. -/
def Scenario.fixed (scenario : Scenario) : Constraints :=
  scenario.truths.map fun pair => (pair.1, .only pair.2)

/-- The constraints are about the names of the scenario. -/
theorem Scenario.keys_fixed (scenario : Scenario) :
    Entries.keys scenario.fixed = Entries.keys scenario.truths := by
  rw [fixed, Entries.keys, List.map_map]
  rfl

/-- A name that a scenario leaves open goes to its end. -/
theorem Scenario.truths_insert {scenario : Scenario} {name : String}
    (h : scenario.get? name = none) (truth : Bool) :
    (scenario.insert name truth).truths = scenario.truths ++ [(name, truth)] := by
  have hnew : ¬Entries.contains name scenario.truths = true := by
    rw [Entries.contains_eq_isSome_get?]
    rw [get?] at h
    rw [h]
    exact Bool.false_ne_true
  exact Entries.insert_of_not_contains hnew truth

/-- A single truth value is all there is to try. -/
theorem TruthSet.descending_only (truth : Bool) : (only truth).descending = [truth] := by
  cases truth <;> rfl

/-- A set with a single truth value has nothing else. -/
theorem TruthSet.eq_only_of_single? {truths : TruthSet} {truth : Bool}
    (h : truths.single? = some truth) : truths = only truth := by
  have hall : ∀ allowsFalse allowsTrue truth : Bool,
      single? ⟨allowsFalse, allowsTrue⟩ = some truth →
      (⟨allowsFalse, allowsTrue⟩ : TruthSet) = only truth := by decide
  exact hall _ _ truth h

namespace Solver

/-- The choices that constraints leave, with the formulas of goals. -/
def choicesFor : Constraints → List (Formula × Bool) → List Choice :=
  List.zipWith fun constraint goal => ⟨constraint.1, goal.1, constraint.2⟩

/-- Constrained conditions are compiled like goals for the same names. -/
theorem compileChoices_eq_map_compileGoals {index : ConditionIndex} {region : Option String}
    {constraints : Constraints} {truths : List (String × Bool)}
    (h : Entries.keys constraints = Entries.keys truths) :
    compileChoices index region constraints =
      choicesFor constraints <$> compileGoals index region truths := by
  induction constraints generalizing truths with
  | nil =>
    obtain rfl : truths = [] := List.map_eq_nil_iff.mp h.symm
    rfl
  | cons constraint constraints ih =>
    obtain ⟨pair, rest, rfl, hname, hrest⟩ := List.map_eq_cons_iff.mp h.symm
    rw [compileChoices, compileGoals, ih hrest.symm, hname]
    simp only [map_bind, bind_map_left, map_pure]
    rfl

/-- The choices that fixed truth values leave, made, with the formulas of their
goals. -/
def fixedChoices : List (String × Bool) → List (Formula × Bool) → List (Choice × Bool) :=
  List.zipWith fun pair goal => (⟨pair.1, goal.1, .only pair.2⟩, pair.2)

/-- Fixed conditions are compiled like goals. -/
theorem compileChoices_fixed (index : ConditionIndex) (region : Option String)
    (truths : List (String × Bool)) :
    compileChoices index region (Scenario.fixed ⟨truths⟩) =
      (fun goals => (fixedChoices truths goals).map Prod.fst) <$>
        compileGoals index region truths := by
  have hchoices : (fun goals => (fixedChoices truths goals).map Prod.fst) =
      choicesFor (Scenario.fixed ⟨truths⟩) := by
    funext goals
    rw [fixedChoices, choicesFor, Scenario.fixed, List.map_zipWith, List.zipWith_map_left]
  rw [hchoices, compileChoices_eq_map_compileGoals (Scenario.keys_fixed ⟨truths⟩)]

/-- Fixed choices can be made in one way. -/
theorem candidates_fixed (truths : List (String × Bool)) (goals : List (Formula × Bool)) :
    candidates ((fixedChoices truths goals).map Prod.fst) = [fixedChoices truths goals] := by
  induction truths generalizing goals with
  | nil => rfl
  | cons pair truths ih =>
    cases goals with
    | nil => rfl
    | cons goal goals =>
      have hcons : fixedChoices (pair :: truths) (goal :: goals) =
          (⟨pair.1, goal.1, .only pair.2⟩, pair.2) :: fixedChoices truths goals := rfl
      rw [hcons, List.map_cons, candidates, TruthSet.descending_only, ih goals]
      rfl

/-- Goals for the truth values of a scenario are those of its fixed choices, which
make the scenario. -/
theorem goalsOf_fixedChoices {truths : List (String × Bool)} {goals : List (Formula × Bool)}
    (h : List.Forall₂ (fun wanted goal => goal.2 = wanted.2) truths goals) :
    goalsOf (fixedChoices truths goals) = goals ∧
      scenarioOf (fixedChoices truths goals) = ⟨truths⟩ := by
  induction h with
  | nil => exact ⟨rfl, rfl⟩
  | @cons wanted goal truths goals hhere _ ih =>
    obtain ⟨hgoals, hscenario⟩ := ih
    constructor
    · refine congrArg₂ List.cons ?_ hgoals
      exact Prod.ext rfl hhere.symm
    · exact congrArg (fun rest => Scenario.mk (wanted :: rest.truths)) hscenario

end Solver

namespace ConditionIndex

variable {index : ConditionIndex}

/-- Fixed truth values of acyclic conditions have one scenario or none, as the
search for them says. -/
theorem buildScenarios_fixed (scenario : Scenario) (region : Option String)
    (hlimit : 1 ≤ index.maxScenarios)
    (hacyclic : ∀ name ∈ Entries.keys scenario.truths, index.Acyclic name) :
    ∃ goals solver, Solver.compileGoals index region scenario.truths {} = .ok (goals, solver) ∧
      index.buildScenarios scenario.fixed region =
        .ok (if solver.satisfiable index goals then [scenario] else []) := by
  have hyields : Solver.Yields index region _ _ _ := Solver.yields_compileGoals hacyclic
  obtain ⟨goals, solver, hcompile, hsound, -, hright⟩ := hyields {} Solver.Sound.empty
  obtain ⟨hgoals, hscenario⟩ := Solver.goalsOf_fixedChoices (hright.imp fun _ _ h => h.truth)
  have hchoices : Solver.compileChoices index region scenario.fixed {} =
      .ok ((Solver.fixedChoices scenario.truths goals).map Prod.fst, solver) := by
    rw [Solver.compileChoices_fixed index region scenario.truths]
    exact Compilation.map_of_ok hcompile _
  refine ⟨goals, solver, hcompile, ?_⟩
  rw [buildScenarios_of_compileChoices hchoices hsound, Solver.scenarios, Solver.scenariosFrom,
    Solver.candidates_fixed, List.filter_singleton, List.nil_append, hgoals]
  cases solver.satisfiable index goals with
  | true =>
    have hone : [scenario].take index.maxScenarios = [scenario] := List.take_of_length_le hlimit
    simp [hscenario, hone]
  | false => simp

/-- A condition follows from a scenario exactly if the search rejects the
scenario with the condition false. -/
theorem checkImplies_of_compileGoals {scenario : Scenario} {target : String}
    {goals : List (Formula × Bool)} {solver : Solver} (hopen : scenario.get? target = none)
    (hcompile : Solver.compileGoals index none (scenario.truths ++ [(target, false)]) {} =
      .ok (goals, solver)) :
    index.checkImplies scenario target = !solver.satisfiable index goals := by
  rw [checkImplies, hopen]
  dsimp only
  rw [StateT.run, hcompile]

/-- A scenario with one more condition false is satisfiable exactly if the
condition does not follow from the scenario. Both questions compile the same
goals: the scenario and then the target. -/
theorem buildScenarios_fixed_insert {scenario : Scenario} {target : String}
    (hlimit : 1 ≤ index.maxScenarios) (hacyclic : ∀ name, index.Acyclic name)
    (hopen : scenario.get? target = none) :
    index.buildScenarios (scenario.insert target false).fixed none =
      .ok (if index.checkImplies scenario target then [] else [scenario.insert target false]) := by
  obtain ⟨goals, solver, hcompile, hbuild⟩ :=
    buildScenarios_fixed (scenario.insert target false) none hlimit fun name _ => hacyclic name
  rw [Scenario.truths_insert hopen] at hcompile
  rw [hbuild, checkImplies_of_compileGoals hopen hcompile]
  cases solver.satisfiable index goals <;> rfl

end ConditionIndex

namespace Analysis

/-- The exception is not decided. -/
theorem get?_decided_self (constraints : Constraints) (except : String) :
    (decided constraints except).get? except = none := by
  rw [Option.eq_none_iff_forall_ne_some]
  intro truth hfound
  obtain ⟨⟨name, truths⟩, -, hpair⟩ := List.mem_filterMap.mp (Entries.mem_of_get? hfound)
  dsimp only at hpair
  split at hpair
  · cases hpair
  · next hother =>
    obtain ⟨_, -, hname⟩ := Option.map_eq_some_iff.mp hpair
    exact hother (congrArg Prod.fst hname)

/-- A guard that follows from what is decided is found to hold, unless it is
fixed to be false or nothing is decided. -/
theorem unasked_of_not_guarded {analysis : Analysis} {constraints : Constraints} {guard : String}
    (himplies : analysis.builder.implies (decided constraints guard) guard = true)
    (h : analysis.guarded constraints guard = false) :
    Entries.get? guard constraints = some (.only false) ∨
      Entries.get? guard constraints = none ∧ (decided constraints guard).truths = [] := by
  unfold guarded at h
  dsimp only at h
  split at h
  · next truths hrecorded =>
    split at h
    · next truth hsingle =>
      left
      rw [hrecorded, TruthSet.eq_only_of_single? hsingle, h]
    · cases himplies.symm.trans h
  · next hunrecorded =>
    split at h
    · next hnothing => exact .inr ⟨hunrecorded, List.isEmpty_iff.mp hnothing⟩
    · cases himplies.symm.trans h

/-- A reference that is reported to dangle does so for a guard that is not found
to hold. -/
theorem Faithful.exists_guard {template : Template} {settings : Settings} {region : Option String}
    {analysis : Analysis} (hfaithful : Faithful template settings region analysis) {path : Path}
    {resource : String} {scenario : Scenario}
    (h : scenario ∈ (analysis.danglingScenarios path resource).1) :
    ∃ guard, template.resourceCondition? resource = some guard ∧
      (analysis.conditionsAlong ⟨path, true, false⟩).2.guarded
        (PathQuery.constraints ⟨path, true, false⟩ template.root) guard = false ∧
      scenario =
        (decided (PathQuery.constraints ⟨path, true, false⟩ template.root) guard).insert guard
          false := by
  rw [Analysis.danglingScenarios, hfaithful.sameTemplate] at h
  cases hguard : template.resourceCondition? resource with
  | none =>
    rw [hguard] at h
    cases h
  | some guard =>
    rw [hguard] at h
    dsimp only at h
    rw [hfaithful.conditionsAlong_fst] at h
    refine ⟨guard, rfl, ?_⟩
    split at h
    · cases h
    · next hunguarded =>
      exact ⟨Bool.eq_false_iff.mpr hunguarded, List.mem_singleton.mp h⟩

/-- The scenario of a dangling reference is the only one with its truth values if
the guard does not follow from what the path decides; otherwise there is none.
In that case the path fixes the guard to be false, or it says nothing about the
guard and decides nothing else. -/
theorem buildScenarios_of_mem_danglingScenarios (template : Template) (settings : Settings)
    (region : Option String) (analysis : Analysis) (path : Path) (resource : String)
    (scenario : Scenario) (hreached : Reached template settings region analysis)
    (hacyclic : ∀ name, (ConditionIndex.ofTemplate template settings).Acyclic name)
    (hlimit : 1 ≤ settings.maxScenarios)
    (h : scenario ∈ (analysis.danglingScenarios path resource).1) :
    ∃ guard, template.resourceCondition? resource = some guard ∧
      let index := ConditionIndex.ofTemplate template settings
      let constraints := PathQuery.constraints ⟨path, true, false⟩ template.root
      let follows := index.checkImplies (decided constraints guard) guard
      index.buildScenarios scenario.fixed none = .ok (if follows then [] else [scenario]) ∧
        (follows = true → Entries.get? guard constraints = some (.only false) ∨
          Entries.get? guard constraints = none ∧ (decided constraints guard).truths = []) := by
  have hfaithful := hreached.faithful
  have hlater := hfaithful.conditionsAlong ⟨path, true, false⟩
  obtain ⟨guard, hguard, hunguarded, rfl⟩ := hfaithful.exists_guard h
  refine ⟨guard, hguard, ?_, fun hfollows => ?_⟩
  · exact ConditionIndex.buildScenarios_fixed_insert hlimit hacyclic (get?_decided_self _ guard)
  · refine unasked_of_not_guarded ?_ hunguarded
    rw [hlater.sameBuilder]
    exact hfollows

/-- The worker may run where there is no table. -/
theorem table_missing_for_worker :
    (danglingScenarios
        ⟨stageTemplate, (ConditionIndex.ofTemplate stageTemplate {}).builder, none, []⟩
        workerPath "Table").1 = [⟨[("IsLive", true), ("IsProd", false)]⟩] ∧
      (ConditionIndex.ofTemplate stageTemplate {}).buildScenarios
        [("IsLive", .only true), ("IsProd", .only false)] none =
          .ok [⟨[("IsLive", true), ("IsProd", false)]⟩] := by
  have hdangling : (danglingScenarios
      ⟨stageTemplate, (ConditionIndex.ofTemplate stageTemplate {}).builder, none, []⟩
      workerPath "Table").1 = [⟨[("IsLive", true), ("IsProd", false)]⟩] := by decide +kernel
  obtain ⟨guard, hguard, hbuild, -⟩ := buildScenarios_of_mem_danglingScenarios stageTemplate {}
    none _ workerPath "Table" _ .start ConditionIndex.acyclic_stageTemplate (by decide)
    (hdangling ▸ List.mem_singleton_self _)
  have hprod : some guard = some "IsProd" := hguard.symm.trans (by decide +kernel)
  cases hprod
  refine ⟨hdangling, hbuild.trans ?_⟩
  decide +kernel

/-- A stack with a resource whose guard always holds, and a resource without a
guard that refers to it, once on a branch that is never taken. -/
def constantTemplate : Template where
  root := .object [
    ("Conditions", .object [("Always", .object [("Fn::Equals",
      .array [.string "on", .string "on"])])]),
    ("Resources", .object [
      ("Bucket", .object [("Condition", .string "Always")]),
      ("Reader", .object [("Properties", .object [
        ("Source", .object [("Ref", .string "Bucket")]),
        ("Fallback", .object [("Fn::If", .array [.string "Always", .string "none",
          .object [("Ref", .string "Bucket")]])])])])])]

/-- A guard that always holds is reported to be false, where nothing is decided
and on a branch that is never taken. -/
theorem danglingScenarios_unsatisfiable :
    (danglingScenarios
        ⟨constantTemplate, (ConditionIndex.ofTemplate constantTemplate {}).builder, none, []⟩
        [.key "Resources", .key "Reader", .key "Properties", .key "Source"] "Bucket").1 =
      [⟨[("Always", false)]⟩] ∧
    (danglingScenarios
        ⟨constantTemplate, (ConditionIndex.ofTemplate constantTemplate {}).builder, none, []⟩
        [.key "Resources", .key "Reader", .key "Properties", .key "Fallback", .key "Fn::If",
          .index 2] "Bucket").1 =
      [⟨[("Always", false)]⟩] ∧
    (ConditionIndex.ofTemplate constantTemplate {}).buildScenarios [("Always", .only false)] none =
      .ok [] := by
  decide +kernel

end Analysis

end StackTemplate
