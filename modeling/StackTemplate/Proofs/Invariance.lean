import StackTemplate.Proofs.Circumstances
import StackTemplate.Proofs.Cycles

/-!
# What scenarios do not depend on

Three laws of the enumeration, as long as it is not cut off. Without a region
it finds what it finds in some region. Asking about more conditions changes
nothing about the conditions asked about before. The order in which conditions
are constrained does not matter.
-/

namespace StackTemplate

/-- If the limit was not reached, nothing was cut off. -/
theorem Solver.take_eq_self {scenarios : List Scenario} {limit : Nat}
    (h : (scenarios.take limit).length < limit) : scenarios.take limit = scenarios := by
  rw [List.length_take] at h
  exact List.take_of_length_le (by omega)

/-- A list of all scenarios of constraints: it holds once each what the
constrained names come to under circumstances that meet the constraints. -/
structure ConditionIndex.AllScenarios (index : ConditionIndex) (region : Option String)
    (constraints : Constraints) (scenarios : List Scenario) : Prop where
  /-- No scenario is listed twice. -/
  nodup : scenarios.Nodup
  /-- The scenarios are those of circumstances that meet the constraints. -/
  mem_iff : ∀ scenario, scenario ∈ scenarios ↔
    ∃ circumstances : Circumstances, circumstances.Meets index region constraints ∧
      circumstances.scenario index region (Entries.keys constraints) = scenario

namespace ConditionIndex

variable {index : ConditionIndex} {constraints : Constraints}

/-- What is enumerated under acyclic constraints is the beginning of a list of
all scenarios. -/
theorem exists_allScenarios (region : Option String) (hplain : index.PlainNames)
    (hacyclic : ∀ name ∈ Entries.keys constraints, index.Acyclic name) :
    ∃ scenarios, index.buildScenarios constraints region =
        .ok (scenarios.take index.maxScenarios) ∧
      index.AllScenarios region constraints scenarios := by
  obtain ⟨choices, solver, hbuild, hsound, hright⟩ := buildScenarios_eq_take region hacyclic
  refine ⟨_, hbuild, solver.nodup_scenarios index choices, fun scenario => ⟨?_, ?_⟩⟩
  · exact Circumstances.exists_of_mem_scenarios hplain hsound hright
  · rintro ⟨circumstances, hmeets, rfl⟩
    exact Circumstances.scenario_mem_scenarios hplain hsound hright hmeets

end ConditionIndex

section Region

variable {index : ConditionIndex} {roots : String → Prop} {constraints : Constraints}

/-- Without a region and without allowed values for it, the comparison of the
region with a text is free. -/
theorem Reading.ofMatch_region (hregion : index.allowed? "AWS::Region" = none) (text : String) :
    ofMatch index none "AWS::Region" text = .free (.comparison "AWS::Region" text) := by
  rw [ofMatch, ofDeclared, hregion]

/-- A region decides about the region only. -/
theorem Reading.ofMatch_some {parameter : String} (hparameter : parameter ≠ "AWS::Region")
    (region text : String) :
    ofMatch index (some region) parameter text = ofMatch index none parameter text := by
  rw [ofMatch, if_neg hparameter, ofMatch]

/-- In a region the same comparisons arise, except those with the region. -/
theorem ConditionIndex.arises_comparison_some {region parameter text : String} :
    index.Arises (some region) roots (.comparison parameter text) ↔
      index.Arises none roots (.comparison parameter text) ∧ parameter ≠ "AWS::Region" := by
  have hsame : ∀ {left right : Operand} {first second : Option String},
      Reading.ofOperands index first left right = .free (.comparison parameter text) →
      Reading.ofMatch index second parameter text = Reading.ofMatch index first parameter text →
      Reading.ofOperands index second left right = .free (.comparison parameter text) := by
    intro left right first second hfree hmatch
    obtain ⟨hoperands, hfirst⟩ := Reading.ofOperands_eq_comparison hfree
    rcases hoperands with ⟨rfl, rfl⟩ | ⟨rfl, rfl⟩
    · exact hmatch.trans hfirst
    · exact hmatch.trans hfirst
  constructor
  · intro h
    have hother : parameter ≠ "AWS::Region" := fun he =>
      absurd (Solver.region_of_arises h he) (by simp)
    cases h with
    | operands hcompares hfree =>
      exact ⟨.operands hcompares (hsame hfree (Reading.ofMatch_some hother region text).symm),
        hother⟩
  · rintro ⟨h, hother⟩
    cases h with
    | operands hcompares hfree =>
      exact .operands hcompares (hsame hfree (Reading.ofMatch_some hother region text))

namespace Circumstances

/-- Comparisons have the same truth values in the region of the circumstances as
without a region. -/
theorem truth_ofMatch_region (circumstances : Circumstances)
    (hregion : index.allowed? "AWS::Region" = none) (parameter text : String) :
    (Reading.ofMatch index (some (circumstances.value "AWS::Region")) parameter text).truth
        circumstances.keys =
      (Reading.ofMatch index none parameter text).truth circumstances.keys := by
  by_cases hparameter : parameter = "AWS::Region"
  · have hplain : PlainName "AWS::Region" := by decide
    rw [hparameter, Reading.ofMatch_region hregion, Reading.truth,
      circumstances.keys_comparison hplain, Reading.ofMatch, if_pos rfl, Reading.truth]
  · rw [Reading.ofMatch_some hparameter]

/-- Names have the same truth values in the region of the circumstances as
without a region. -/
theorem truth_region (circumstances : Circumstances)
    (hregion : index.allowed? "AWS::Region" = none) :
    circumstances.truth index (some (circumstances.value "AWS::Region")) =
      circumstances.truth index none := by
  have hsame : Interpretation.ofKeys index (some (circumstances.value "AWS::Region"))
      circumstances.keys = .ofKeys index none circumstances.keys := by
    rw [Interpretation.ofKeys, Interpretation.ofKeys, Interpretation.mk.injEq]
    refine ⟨?_, rfl, rfl⟩
    funext left right
    cases left with
    | literal first =>
      cases right with
      | literal second => rfl
      | ref parameter => exact circumstances.truth_ofMatch_region hregion parameter first
      | other digest => rfl
    | ref parameter =>
      cases right with
      | literal text => exact circumstances.truth_ofMatch_region hregion parameter text
      | ref second => rfl
      | other digest => rfl
    | other digest => cases right <;> rfl
  funext name
  rw [truth, truth, hsame]

/-- Scenarios are the same in the region of the circumstances as without a
region. -/
theorem scenario_region (circumstances : Circumstances)
    (hregion : index.allowed? "AWS::Region" = none) (names : List String) :
    circumstances.scenario index (some (circumstances.value "AWS::Region")) names =
      circumstances.scenario index none names := by
  rw [scenario, scenario, circumstances.truth_region hregion]

/-- Circumstances meet constraints in a region if they do without one and their
region is this one. -/
theorem meets_some_iff {circumstances : Circumstances}
    (hregion : index.allowed? "AWS::Region" = none) {region : String} :
    circumstances.Meets index (some region) constraints ↔
      circumstances.Meets index none constraints ∧ circumstances.value "AWS::Region" = region := by
  constructor
  · rintro ⟨hadmits, hallowed⟩
    have hgiven : circumstances.value "AWS::Region" = region := hadmits.given region rfl
    rw [← hgiven, circumstances.truth_region hregion] at hallowed
    refine ⟨⟨⟨fun _ h => absurd h (by simp), ?_⟩, hallowed⟩, hgiven⟩
    intro parameter text harises allowed hlisted
    have hother : parameter ≠ "AWS::Region" := by
      rintro rfl
      cases hregion.symm.trans hlisted
    exact hadmits.allowed parameter text
      (ConditionIndex.arises_comparison_some.mpr ⟨harises, hother⟩) allowed hlisted
  · rintro ⟨⟨hadmits, hallowed⟩, rfl⟩
    rw [← circumstances.truth_region hregion] at hallowed
    refine ⟨⟨fun _ h => Option.some.inj h, ?_⟩, hallowed⟩
    intro parameter text harises
    exact hadmits.allowed parameter text (ConditionIndex.arises_comparison_some.mp harises).1

end Circumstances

namespace ConditionIndex

/-- What is listed for a region is listed without one. -/
theorem AllScenarios.subset_none (hregion : index.allowed? "AWS::Region" = none) {region : String}
    {scenarios others : List Scenario} (hall : index.AllScenarios none constraints scenarios)
    (hothers : index.AllScenarios (some region) constraints others) : others ⊆ scenarios := by
  intro scenario h
  obtain ⟨circumstances, hmeets, rfl⟩ := (hothers.mem_iff _).mp h
  obtain ⟨hanywhere, rfl⟩ := (Circumstances.meets_some_iff hregion).mp hmeets
  rw [circumstances.scenario_region hregion]
  exact (hall.mem_iff _).mpr ⟨circumstances, hanywhere, rfl⟩

/-- Where parameters have plain names and the region has no allowed values, a
scenario is found without a region if and only if it is found in some region. A
region has no more scenarios than there are without one, so the limit holds for it
too. -/
theorem mem_buildScenarios_none_iff (index : ConditionIndex) (constraints : Constraints)
    (hplain : index.PlainNames) (hregion : index.allowed? "AWS::Region" = none)
    (hacyclic : ∀ name ∈ Entries.keys constraints, index.Acyclic name) :
    ∃ scenarios, index.buildScenarios constraints none = .ok scenarios ∧
      (scenarios.length < index.maxScenarios → ∀ scenario, scenario ∈ scenarios ↔
        ∃ region inRegion, index.buildScenarios constraints (some region) = .ok inRegion ∧
          scenario ∈ inRegion) := by
  obtain ⟨scenarios, hbuild, hall⟩ := exists_allScenarios none hplain hacyclic
  refine ⟨_, hbuild, fun hlimit scenario => ?_⟩
  have huncut : scenarios.take index.maxScenarios = scenarios := Solver.take_eq_self hlimit
  rw [huncut] at hlimit ⊢
  constructor
  · intro h
    obtain ⟨circumstances, hmeets, rfl⟩ := (hall.mem_iff _).mp h
    obtain ⟨others, hothersBuild, hothers⟩ :=
      exists_allScenarios (some (circumstances.value "AWS::Region")) hplain hacyclic
    have hlength : others.length ≤ scenarios.length :=
      (List.subperm_of_subset hothers.nodup (hall.subset_none hregion hothers)).length_le
    refine ⟨_, _, hothersBuild, ?_⟩
    rw [List.take_of_length_le (by omega), ← circumstances.scenario_region hregion]
    have hhere := (Circumstances.meets_some_iff hregion).mpr ⟨hmeets, rfl⟩
    exact (hothers.mem_iff _).mpr ⟨circumstances, hhere, rfl⟩
  · rintro ⟨region, inRegion, hinRegion, h⟩
    obtain ⟨others, hothersBuild, hothers⟩ := exists_allScenarios (some region) hplain hacyclic
    cases hinRegion.symm.trans hothersBuild
    exact hall.subset_none hregion hothers (List.mem_of_mem_take h)

theorem mem_buildScenarios_none_iff_stage :
    (ofTemplate stageTemplate {}).allowed? "AWS::Region" = none ∧
      ∃ region inRegion, (ofTemplate stageTemplate {}).buildScenarios
          [("IsProd", .both), ("IsLive", .both)] (some region) = .ok inRegion ∧
        ⟨[("IsProd", false), ("IsLive", true)]⟩ ∈ inRegion := by
  have hregion : (ofTemplate stageTemplate {}).allowed? "AWS::Region" = none := by decide
  obtain ⟨scenarios, hbuild, hiff⟩ := mem_buildScenarios_none_iff (ofTemplate stageTemplate {})
    [("IsProd", .both), ("IsLive", .both)] (by decide) hregion
    fun name _ => acyclic_stageTemplate name
  have hscenarios : (ofTemplate stageTemplate {}).buildScenarios
      [("IsProd", .both), ("IsLive", .both)] none =
        .ok [⟨[("IsProd", true), ("IsLive", true)]⟩, ⟨[("IsProd", false), ("IsLive", true)]⟩,
          ⟨[("IsProd", false), ("IsLive", false)]⟩] := by decide +kernel
  cases hbuild.symm.trans hscenarios
  exact ⟨hregion, (hiff (by decide) _).mp (by decide)⟩

end ConditionIndex

end Region

section More

variable {index : ConditionIndex} {region : Option String} {roots : String → Prop}
  {solver later : Solver}

/-- The truth values of the given names only. -/
def Scenario.restrict (scenario : Scenario) (names : List String) : Scenario :=
  ⟨scenario.truths.filter fun pair => pair.1 ∈ names⟩

namespace Solver

/-- Whether formulas are satisfiable depends on the atoms that occur in them,
so it stays as it is while the table of atoms grows. -/
theorem satisfiable_of_isPrefix (hgrow : solver.atoms <+: later.atoms)
    {goals : List (Formula × Bool)}
    (hbounded : ∀ goal ∈ goals, ∀ number ∈ goal.1.atoms, number < solver.atoms.length) :
    later.satisfiable index goals = solver.satisfiable index goals := by
  have hcomparisons : later.comparisons (relevantAtoms goals) =
      solver.comparisons (relevantAtoms goals) := by
    unfold comparisons
    refine List.foldl_ext _ _ _ fun groups number hnumber => ?_
    obtain ⟨goal, hgoal, hatom⟩ := mem_relevantAtoms.mp hnumber
    obtain ⟨added, hadded⟩ := hgrow
    rw [← hadded, List.getElem?_append_left (hbounded goal hgoal number hatom)]
  rw [satisfiable, satisfiable, hcomparisons]

/-- The scenarios of choices stay as they are while the table of atoms grows. -/
theorem scenarios_of_isPrefix (hgrow : solver.atoms <+: later.atoms) {choices : List Choice}
    (hbounded : ∀ choice ∈ choices, ∀ number ∈ choice.formula.atoms,
      number < solver.atoms.length) :
    later.scenarios index choices = solver.scenarios index choices := by
  rw [scenarios, scenarios, scenariosFrom, scenariosFrom]
  refine congrArg _ (List.filter_congr fun made hmade => ?_)
  obtain ⟨hchoices, -⟩ := mem_candidates.mp hmade
  refine satisfiable_of_isPrefix hgrow fun goal hgoal => ?_
  obtain ⟨pair, hpair, rfl⟩ := List.mem_map.mp hgoal
  exact hbounded pair.1 (hchoices ▸ List.mem_map_of_mem hpair)

/-- Later choices about other names are left out by a restriction. -/
theorem restrict_scenarioOf_append {names : List String} {first second : List (Choice × Bool)}
    (hfirst : ∀ pair ∈ first, pair.1.name ∈ names)
    (hsecond : ∀ pair ∈ second, pair.1.name ∉ names) :
    (scenarioOf (first ++ second)).restrict names = scenarioOf first := by
  have hkept : (scenarioOf first).truths.filter (fun pair => pair.1 ∈ names) =
      (scenarioOf first).truths := by
    refine List.filter_eq_self.mpr fun pair hpair => ?_
    obtain ⟨made, hmade, rfl⟩ := List.mem_map.mp hpair
    exact decide_eq_true (hfirst made hmade)
  have hdropped : (scenarioOf second).truths.filter (fun pair => pair.1 ∈ names) = [] := by
    refine List.filter_eq_nil_iff.mpr fun pair hpair => ?_
    obtain ⟨made, hmade, rfl⟩ := List.mem_map.mp hpair
    simpa using hsecond made hmade
  rw [Scenario.restrict, scenarioOf, List.map_append, List.filter_append]
  exact congrArg Scenario.mk ((congrArg₂ _ hkept hdropped).trans (List.append_nil _))

/-- Choices that are left open do not change what can be chosen before: what is
satisfiable holds under some valuation, which also makes the open choices. -/
theorem mem_scenarios_append_iff (hsound : Sound index region roots solver) {names : List String}
    {first second : List Choice} (hfirst : ∀ choice ∈ first, choice.name ∈ names)
    (hsecond : ∀ choice ∈ second, choice.name ∉ names)
    (hopen : ∀ choice ∈ second, choice.truths = .both) {scenario : Scenario} :
    scenario ∈ solver.scenarios index first ↔
      ∃ longer ∈ solver.scenarios index (first ++ second), longer.restrict names = scenario := by
  constructor
  · intro h
    obtain ⟨made, rfl, htruths, hsatisfiable, rfl⟩ := mem_scenarios.mp h
    obtain ⟨values, truth, hadmits, hmatches, hgoals⟩ := (satisfiable_iff hsound).mp hsatisfiable
    let added := second.map fun choice => (choice, choice.formula.holds truth)
    have hadded : added.map Prod.fst = second := by
      rw [List.map_map]
      exact List.map_id second
    refine ⟨scenarioOf (made ++ added), mem_scenarios.mpr ⟨made ++ added, ?_, ?_, ?_, rfl⟩, ?_⟩
    · rw [List.map_append, hadded]
    · intro pair hpair
      rcases List.mem_append.mp hpair with hpair | hpair
      · exact htruths pair hpair
      · obtain ⟨choice, hchoice, rfl⟩ := List.mem_map.mp hpair
        rw [hopen choice hchoice]
        cases choice.formula.holds truth <;> rfl
    · refine (satisfiable_iff hsound).mpr ⟨values, truth, hadmits, hmatches, fun goal hgoal => ?_⟩
      obtain ⟨pair, hpair, rfl⟩ := List.mem_map.mp hgoal
      rcases List.mem_append.mp hpair with hpair | hpair
      · exact hgoals _ (List.mem_map_of_mem hpair)
      · obtain ⟨choice, -, rfl⟩ := List.mem_map.mp hpair
        rfl
    · refine restrict_scenarioOf_append (fun pair hpair => hfirst _ (List.mem_map_of_mem hpair))
        fun pair hpair => hsecond _ ?_
      rw [← hadded]
      exact List.mem_map_of_mem hpair
  · rintro ⟨longer, h, rfl⟩
    obtain ⟨made, hmade, htruths, hsatisfiable, rfl⟩ := mem_scenarios.mp h
    obtain ⟨before, after, rfl, rfl, rfl⟩ := List.map_eq_append_iff.mp hmade
    rw [restrict_scenarioOf_append (fun pair hpair => hfirst _ (List.mem_map_of_mem hpair))
      fun pair hpair => hsecond _ (List.mem_map_of_mem hpair)]
    refine mem_scenarios.mpr ⟨before, rfl, ?_, ?_, rfl⟩
    · exact fun pair hpair => htruths pair (List.mem_append_left _ hpair)
    · refine satisfiable_of_subset hsound ?_ hsatisfiable
      rw [goalsOf, goalsOf, List.map_append]
      exact List.subset_append_left _ _

/-- Constrained conditions are compiled in order. -/
theorem compileChoices_append (first second : Constraints) :
    compileChoices index region (first ++ second) = (do
      let choices ← compileChoices index region first
      let added ← compileChoices index region second
      return choices ++ added) := by
  simp only [compileChoices_eq_mapM, List.mapM_append]

end Solver

namespace ConditionIndex

/-- Acyclic constraints and more of them have scenarios over the same tables. -/
theorem buildScenarios_append_eq_take (region : Option String) {constraints more : Constraints}
    (hacyclic : ∀ name ∈ Entries.keys (constraints ++ more), index.Acyclic name) :
    ∃ choices added solver,
      index.buildScenarios constraints region =
        .ok ((solver.scenarios index choices).take index.maxScenarios) ∧
      index.buildScenarios (constraints ++ more) region =
        .ok ((solver.scenarios index (choices ++ added)).take index.maxScenarios) ∧
      Solver.Sound index region (· ∈ Entries.keys (constraints ++ more)) solver ∧
      List.Forall₂ (Solver.Choice.Right index region solver) constraints choices ∧
      List.Forall₂ (Solver.Choice.Right index region solver) more added := by
  have hfirst : ∀ name ∈ Entries.keys constraints, name ∈ Entries.keys (constraints ++ more) := by
    intro name hname
    rw [Entries.keys_append]
    exact List.mem_append_left _ hname
  have hsecond : ∀ name ∈ Entries.keys more, name ∈ Entries.keys (constraints ++ more) := by
    intro name hname
    rw [Entries.keys_append]
    exact List.mem_append_right _ hname
  have hyields : Solver.Yields index region (· ∈ Entries.keys (constraints ++ more)) _ _ :=
    Solver.yields_compileChoices hfirst fun name hname => hacyclic name (hfirst name hname)
  have hyieldsMore : Solver.Yields index region (· ∈ Entries.keys (constraints ++ more)) _ _ :=
    Solver.yields_compileChoices hsecond fun name hname => hacyclic name (hsecond name hname)
  obtain ⟨choices, middle, hcompile, hmiddle, -, hright⟩ := hyields {} Solver.Sound.empty
  obtain ⟨added, solver, hcompileMore, hsound, hgrow, hadded⟩ := hyieldsMore middle hmiddle
  have hall : Solver.compileChoices index region (constraints ++ more) {} =
      .ok (choices ++ added, solver) := by
    rw [Solver.compileChoices_append, Compilation.bind_of_ok hcompile,
      Compilation.bind_of_ok hcompileMore]
    rfl
  refine ⟨choices, added, solver, ?_, buildScenarios_of_compileChoices hall hsound, hsound, ?_,
    hadded⟩
  · rw [Solver.scenarios_of_isPrefix hgrow]
    · exact buildScenarios_of_compileChoices hcompile hmiddle
    · intro choice hchoice
      obtain ⟨constraint, -, hhere⟩ := Solver.exists_of_forall₂ hright hchoice
      exact hhere.denotes.bounded
  · exact hright.imp fun _ _ h => ⟨h.name, h.truths, h.denotes.grow hgrow⟩

/-- Asking about more conditions changes nothing about the first ones: what is
found for them is what is found for all, restricted to them. So there are no more
scenarios of the first conditions than of all. -/
theorem mem_buildScenarios_iff_restrict (index : ConditionIndex) (region : Option String)
    (constraints : Constraints) (names : List String)
    (hnew : ∀ name ∈ names, name ∉ Entries.keys constraints)
    (hacyclic : ∀ name ∈ Entries.keys constraints ++ names, index.Acyclic name) :
    ∃ few many, index.buildScenarios constraints region = .ok few ∧
      index.buildScenarios (constraints ++ names.map fun name => (name, .both)) region =
        .ok many ∧
      (many.length < index.maxScenarios → ∀ scenario, scenario ∈ few ↔
        ∃ longer ∈ many, longer.restrict (Entries.keys constraints) = scenario) := by
  have hkeys : Entries.keys (constraints ++ names.map fun name => (name, TruthSet.both)) =
      Entries.keys constraints ++ names := by
    rw [Entries.keys_append, Entries.keys.eq_def (names.map _), List.map_map]
    exact congrArg _ (List.map_id names)
  have hall : ∀ name ∈ Entries.keys (constraints ++ names.map fun name => (name, TruthSet.both)),
      index.Acyclic name := by rwa [hkeys]
  obtain ⟨choices, added, solver, hfew, hmany, hsound, hright, hadded⟩ :=
    buildScenarios_append_eq_take region hall
  have hfirst : ∀ choice ∈ choices, choice.name ∈ Entries.keys constraints := by
    intro choice hchoice
    obtain ⟨constraint, hconstraint, hhere⟩ := Solver.exists_of_forall₂ hright hchoice
    exact hhere.name ▸ List.mem_map_of_mem hconstraint
  have hsecond : ∀ choice ∈ added,
      choice.name ∉ Entries.keys constraints ∧ choice.truths = .both := by
    intro choice hchoice
    obtain ⟨constraint, hconstraint, hhere⟩ := Solver.exists_of_forall₂ hadded hchoice
    obtain ⟨name, hname, rfl⟩ := List.mem_map.mp hconstraint
    exact ⟨hhere.name ▸ hnew name hname, hhere.truths⟩
  have hiff : ∀ scenario, scenario ∈ solver.scenarios index choices ↔
      ∃ longer ∈ solver.scenarios index (choices ++ added),
        longer.restrict (Entries.keys constraints) = scenario := fun scenario =>
    Solver.mem_scenarios_append_iff hsound hfirst (fun choice h => (hsecond choice h).1)
      fun choice h => (hsecond choice h).2
  refine ⟨_, _, hfew, hmany, fun hlimit => ?_⟩
  have huncut := Solver.take_eq_self hlimit
  rw [huncut] at hlimit ⊢
  have hsubset : solver.scenarios index choices ⊆ (solver.scenarios index (choices ++ added)).map
      fun longer => longer.restrict (Entries.keys constraints) :=
    fun scenario h => List.mem_map.mpr ((hiff scenario).mp h)
  have hlength := (List.subperm_of_subset (solver.nodup_scenarios index choices) hsubset).length_le
  rw [List.length_map] at hlength
  rw [List.take_of_length_le (by omega)]
  exact hiff

theorem mem_buildScenarios_iff_restrict_stage :
    ∃ few many, (ofTemplate stageTemplate {}).buildScenarios [("IsLive", .only true)] none =
        .ok few ∧
      (ofTemplate stageTemplate {}).buildScenarios
        [("IsLive", .only true), ("IsProd", .both), ("IsLocal", .both)] none = .ok many ∧
      ∀ scenario, scenario ∈ few ↔ ∃ longer ∈ many, longer.restrict ["IsLive"] = scenario := by
  obtain ⟨few, many, hfew, hmany, hiff⟩ := mem_buildScenarios_iff_restrict
    (ofTemplate stageTemplate {}) none [("IsLive", .only true)] ["IsProd", "IsLocal"] (by decide)
    fun name _ => acyclic_stageTemplate name
  have hlength : ((ofTemplate stageTemplate {}).buildScenarios
      [("IsLive", .only true), ("IsProd", .both), ("IsLocal", .both)] none).map List.length =
        .ok 3 := by decide +kernel
  rw [List.map_cons, List.map_cons, List.map_nil, List.singleton_append] at hmany
  rw [hmany] at hlength
  refine ⟨few, many, hfew, hmany, hiff ?_⟩
  rw [Except.ok.inj hlength]
  decide

end ConditionIndex

end More

section Order

variable {index : ConditionIndex} {region : Option String} {first second : Constraints}

/-- The truth values of the given names, in their order. -/
def Scenario.arrange (scenario : Scenario) (names : List String) : Scenario :=
  ⟨names.map fun name => (name, (scenario.get? name).getD false)⟩

namespace Circumstances

/-- Names have their truth values in a scenario of circumstances. -/
theorem get?_scenario (circumstances : Circumstances) (names : List String) (name : String) :
    (circumstances.scenario index region names).get? name =
      if name ∈ names then some (circumstances.truth index region name) else none :=
  Entries.get?_map_self _ names name

/-- The scenario of circumstances can be arranged in another order. -/
theorem arrange_scenario (circumstances : Circumstances) {names others : List String}
    (hsubset : others ⊆ names) :
    (circumstances.scenario index region names).arrange others =
      circumstances.scenario index region others := by
  refine congrArg Scenario.mk (List.map_congr_left fun name hname => ?_)
  rw [get?_scenario, if_pos (hsubset hname), Option.getD_some]

/-- Circumstances meet constraints in any order. -/
theorem Meets.perm {circumstances : Circumstances} (hperm : first.Perm second)
    (hmeets : circumstances.Meets index region first) :
    circumstances.Meets index region second := by
  have hroots : (· ∈ Entries.keys first) = (· ∈ Entries.keys second) := by
    funext name
    exact propext (hperm.map Prod.fst).mem_iff
  refine ⟨hroots ▸ hmeets.admits, fun constraint hconstraint => ?_⟩
  exact hmeets.allowed constraint (hperm.mem_iff.mpr hconstraint)

end Circumstances

namespace ConditionIndex.AllScenarios

variable {scenarios others : List Scenario}

/-- A scenario of constraints is, in another order, one of the same constraints
in that order. -/
theorem arrange_mem (hperm : first.Perm second) (hall : index.AllScenarios region first scenarios)
    (hothers : index.AllScenarios region second others) {scenario : Scenario}
    (h : scenario ∈ scenarios) :
    scenario.arrange (Entries.keys second) ∈ others ∧
      (scenario.arrange (Entries.keys second)).arrange (Entries.keys first) = scenario ∧
      ∀ name, (scenario.arrange (Entries.keys second)).get? name = scenario.get? name := by
  have hkeys : (Entries.keys first).Perm (Entries.keys second) := hperm.map Prod.fst
  obtain ⟨circumstances, hmeets, rfl⟩ := (hall.mem_iff _).mp h
  rw [circumstances.arrange_scenario hkeys.symm.subset, circumstances.arrange_scenario hkeys.subset]
  refine ⟨(hothers.mem_iff _).mpr ⟨circumstances, hmeets.perm hperm, rfl⟩, rfl, fun name => ?_⟩
  simp only [Circumstances.get?_scenario, hkeys.mem_iff]

/-- In another order there are no fewer scenarios. -/
theorem length_le (hperm : first.Perm second) (hall : index.AllScenarios region first scenarios)
    (hothers : index.AllScenarios region second others) : scenarios.length ≤ others.length := by
  have hnodup : (scenarios.map (Scenario.arrange · (Entries.keys second))).Nodup := by
    refine hall.nodup.map_on fun one hone other hother he => ?_
    obtain ⟨-, hback, -⟩ := hall.arrange_mem hperm hothers hone
    obtain ⟨-, hbackOther, -⟩ := hall.arrange_mem hperm hothers hother
    rw [← hback, he, hbackOther]
  have hsubset : scenarios.map (Scenario.arrange · (Entries.keys second)) ⊆ others := by
    intro scenario h
    obtain ⟨one, hone, rfl⟩ := List.mem_map.mp h
    exact (hall.arrange_mem hperm hothers hone).1
  rw [← List.length_map (Scenario.arrange · (Entries.keys second))]
  exact (List.subperm_of_subset hnodup hsubset).length_le

end ConditionIndex.AllScenarios

namespace ConditionIndex

/-- The order of constraints is irrelevant: it decides neither whether a
condition is found to be defined in terms of itself nor how many scenarios there
are, and unless they are cut off these are the same up to the order of names. -/
theorem buildScenarios_perm (index : ConditionIndex) (region : Option String)
    (first second : Constraints) (hplain : index.PlainNames) (hperm : first.Perm second) :
    ((∃ name, index.buildScenarios first region = .error (.cycle name)) ↔
        ∃ name, index.buildScenarios second region = .error (.cycle name)) ∧
      ∀ scenarios others, index.buildScenarios first region = .ok scenarios →
        index.buildScenarios second region = .ok others →
        scenarios.length = others.length ∧
          (scenarios.length < index.maxScenarios →
            (∀ scenario ∈ scenarios, ∃ other ∈ others,
              ∀ name, other.get? name = scenario.get? name) ∧
            ∀ other ∈ others, ∃ scenario ∈ scenarios,
              ∀ name, scenario.get? name = other.get? name) := by
  have hkeys : (Entries.keys first).Perm (Entries.keys second) := hperm.map Prod.fst
  constructor
  · simp only [buildScenarios_eq_cycle_iff, hkeys.mem_iff]
  · intro scenarios others hfirst hsecond
    obtain ⟨allFirst, hbuildFirst, hallFirst⟩ :=
      exists_allScenarios region hplain (acyclic_of_buildScenarios hfirst)
    obtain ⟨allSecond, hbuildSecond, hallSecond⟩ :=
      exists_allScenarios region hplain (acyclic_of_buildScenarios hsecond)
    cases hfirst.symm.trans hbuildFirst
    cases hsecond.symm.trans hbuildSecond
    have hle : allFirst.length ≤ allSecond.length := hallFirst.length_le hperm hallSecond
    have hge : allSecond.length ≤ allFirst.length := hallSecond.length_le hperm.symm hallFirst
    have hlength : (allFirst.take index.maxScenarios).length =
        (allSecond.take index.maxScenarios).length := by
      rw [List.length_take, List.length_take]
      omega
    refine ⟨hlength, fun hlimit => ?_⟩
    rw [Solver.take_eq_self hlimit, Solver.take_eq_self (hlength ▸ hlimit)]
    constructor
    · intro scenario h
      obtain ⟨hmem, -, hsame⟩ := hallFirst.arrange_mem hperm hallSecond h
      exact ⟨_, hmem, hsame⟩
    · intro other h
      obtain ⟨hmem, -, hsame⟩ := hallSecond.arrange_mem hperm.symm hallFirst h
      exact ⟨_, hmem, hsame⟩

theorem buildScenarios_perm_stage :
    ∃ scenarios others, (ofTemplate stageTemplate {}).buildScenarios
        [("IsLive", .only true), ("IsProd", .both)] none = .ok scenarios ∧
      (ofTemplate stageTemplate {}).buildScenarios
        [("IsProd", .both), ("IsLive", .only true)] none = .ok others ∧
      scenarios.length = others.length ∧
      ∀ scenario ∈ scenarios, ∃ other ∈ others, ∀ name, other.get? name = scenario.get? name := by
  have hscenarios : (ofTemplate stageTemplate {}).buildScenarios
      [("IsLive", .only true), ("IsProd", .both)] none =
        .ok [⟨[("IsLive", true), ("IsProd", true)]⟩, ⟨[("IsLive", true), ("IsProd", false)]⟩] := by
    decide +kernel
  have hothers : (ofTemplate stageTemplate {}).buildScenarios
      [("IsProd", .both), ("IsLive", .only true)] none =
        .ok [⟨[("IsProd", true), ("IsLive", true)]⟩, ⟨[("IsProd", false), ("IsLive", true)]⟩] := by
    decide +kernel
  obtain ⟨-, hsame⟩ := buildScenarios_perm (ofTemplate stageTemplate {}) none
    [("IsLive", .only true), ("IsProd", .both)] [("IsProd", .both), ("IsLive", .only true)]
    (by decide) (.swap _ _ _)
  obtain ⟨hlength, hmaps⟩ := hsame _ _ hscenarios hothers
  exact ⟨_, _, hscenarios, hothers, hlength, (hmaps (by decide)).1⟩

end ConditionIndex

end Order

end StackTemplate
