import StackTemplate.Proofs.Cycles
import StackTemplate.Proofs.Dangling

/-!
# Implication and enumeration

Whether a condition follows from a scenario is decided by one search, for the
scenario with the condition false. The enumeration knows the same in another
way: it fixes the scenario, leaves the condition open and lists at most two
scenarios, one for each truth value. Both compile the same names in the same
order, so they search for the same goals. A cycle stops either of them.
-/

namespace StackTemplate

/-- The constraints that fix a scenario and leave one more name open. -/
def Scenario.fixedBeside (scenario : Scenario) (target : String) : Constraints :=
  scenario.fixed ++ [(target, .both)]

/-- A single truth value is the only member of its set. -/
theorem TruthSet.contains_only {truth other : Bool} :
    (only truth).contains other = true ↔ other = truth := by
  cases truth <;> cases other <;> decide

/-- A scenario obeys constraints that fix another one and leave a name open
exactly if it adds a truth value of the name to the other scenario. -/
theorem Scenario.obeys_fixedBeside {scenario other : Scenario} {target : String} :
    other.Obeys (scenario.fixedBeside target) ↔
      ∃ truth, other = ⟨scenario.truths ++ [(target, truth)]⟩ := by
  obtain ⟨truths⟩ := scenario
  obtain ⟨others⟩ := other
  simp only [Obeys, fixedBeside, fixed, Scenario.mk.injEq]
  induction truths generalizing others with
  | nil =>
    rw [List.map_nil, List.nil_append]
    constructor
    · intro h
      obtain ⟨pair, rest, ⟨hname, -⟩, hrest, rfl⟩ := List.forall₂_cons_left_iff.mp h
      rw [List.forall₂_nil_left_iff.mp hrest]
      have hpair : pair = (target, pair.2) := Prod.ext hname rfl
      exact ⟨pair.2, congrArg (· :: []) hpair⟩
    · rintro ⟨truth, rfl⟩
      exact .cons ⟨rfl, by cases truth <;> rfl⟩ .nil
  | cons first truths ih =>
    rw [List.map_cons, List.cons_append, List.forall₂_cons_left_iff]
    constructor
    · rintro ⟨pair, rest, ⟨hname, htruth⟩, hrest, rfl⟩
      obtain ⟨truth, rfl⟩ := (ih rest).mp hrest
      have hpair : pair = first := Prod.ext hname (TruthSet.contains_only.mp htruth)
      exact ⟨truth, by rw [hpair, List.cons_append]⟩
    · rintro ⟨truth, rfl⟩
      exact ⟨first, _, ⟨rfl, TruthSet.contains_only.mpr rfl⟩, (ih _).mpr ⟨truth, rfl⟩, rfl⟩

/-- A name that is added to a scenario has the truth value it is added with. -/
theorem Scenario.get?_concat {scenario : Scenario} {target : String}
    (h : scenario.get? target = none) (truth : Bool) :
    Scenario.get? ⟨scenario.truths ++ [(target, truth)]⟩ target = some truth := by
  rw [get?, ← truths_insert h truth]
  exact Entries.get?_insert_self _ _ _

namespace Solver

variable {index : ConditionIndex} {region : Option String}

/-- Goals are wanted of the choices that they give their formulas to. -/
theorem zipWith_choicesFor {constraints : Constraints} {truths : List (String × Bool)}
    {goals : List (Formula × Bool)} (hkeys : Entries.keys constraints = Entries.keys truths)
    (h : List.Forall₂ (fun wanted goal => goal.2 = wanted.2) truths goals) :
    List.zipWith (fun choice pair => (choice.formula, pair.2)) (choicesFor constraints goals)
      truths = goals := by
  induction h generalizing constraints with
  | nil => exact List.zipWith_nil_right
  | @cons wanted goal truths goals hhere _ ih =>
    obtain ⟨constraint, rest, rfl, -, hrest⟩ := List.map_eq_cons_iff.mp hkeys
    exact congrArg₂ List.cons (Prod.ext rfl hhere.symm) (ih hrest)

/-- The names of goals that are compiled are acyclic. -/
theorem vets_compileGoals (truths : List (String × Bool)) :
    Vets index (compileGoals index region truths) (· ∈ Entries.keys truths) := by
  have hname : ∀ wanted ∈ truths,
      Vets index (((·, wanted.2)) <$> compile index region wanted.1 :
        Compilation (Formula × Bool)) (· = wanted.1) :=
    fun wanted _ => Vets.map vets_compile _
  rw [compileGoals_eq_mapM]
  refine (Vets.mapM hname).mono fun name hmem => ?_
  obtain ⟨wanted, hwanted, rfl⟩ := List.mem_map.mp hmem
  exact ⟨wanted, hwanted, rfl⟩

end Solver

namespace ConditionIndex

variable {index : ConditionIndex} {scenario : Scenario} {target : String}

/-- The constraints are about the same names as the goals of the implication. -/
theorem keys_fixedBeside (scenario : Scenario) (target : String) (truth : Bool) :
    Entries.keys (scenario.fixedBeside target) =
      Entries.keys (scenario.truths ++ [(target, truth)]) := by
  rw [Scenario.fixedBeside, Entries.keys_append, Entries.keys_append, Scenario.keys_fixed]
  rfl

/-- All scenarios beside a fixed one are enumerated as soon as the limit leaves
room for two. The compilation of the choices runs over the same names as that of
the goals, so both leave the same tables. -/
theorem exists_enumerate_fixedBeside
    (hacyclic : ∀ name ∈ Entries.keys (scenario.fixedBeside target), index.Acyclic name)
    {limit : Nat} (hlimit : 1 < limit) :
    ∃ goals solver found,
      Solver.compileGoals index none (scenario.truths ++ [(target, false)]) {} =
        .ok (goals, solver) ∧
      Solver.enumerate index none (scenario.fixedBeside target) limit = .ok found ∧
      (∀ other ∈ found, ∃ truth, other = ⟨scenario.truths ++ [(target, truth)]⟩) ∧
      (⟨scenario.truths ++ [(target, false)]⟩ ∈ found ↔ solver.satisfiable index goals = true) := by
  have hkeys := keys_fixedBeside scenario target false
  have hnames := hacyclic
  rw [hkeys] at hnames
  have hyields : Solver.Yields index none _ _ _ := Solver.yields_compileGoals hnames
  obtain ⟨goals, solver, hgoals, -, -, hwanted⟩ := hyields {} Solver.Sound.empty
  obtain ⟨choices, solver', hchoices, hsound, hright⟩ := Solver.exists_compileChoices none hacyclic
  rw [Solver.compileChoices_eq_map_compileGoals hkeys, Compilation.map_of_ok hgoals] at hchoices
  cases hchoices
  have hlists := Solver.lists_scenarios hright
  have hform : ∀ other ∈ solver.scenarios index _, ∃ truth,
      other = ⟨scenario.truths ++ [(target, truth)]⟩ := fun other hother =>
    Scenario.obeys_fixedBeside.mp ((hlists.mem_iff other).mp hother).1
  have htwo : (solver.scenarios index
      (Solver.choicesFor (scenario.fixedBeside target) goals)).length ≤ 2 := by
    have hsubset : solver.scenarios index (Solver.choicesFor (scenario.fixedBeside target) goals) ⊆
        [⟨scenario.truths ++ [(target, true)]⟩, ⟨scenario.truths ++ [(target, false)]⟩] := by
      intro other hother
      obtain ⟨truth, rfl⟩ := hform other hother
      cases truth <;> simp
    exact (List.subperm_of_subset (solver.nodup_scenarios index _) hsubset).length_le
  have henumerate := Solver.enumerate_of_compileChoices
    (by rw [Solver.compileChoices_eq_map_compileGoals hkeys, Compilation.map_of_ok hgoals])
    hsound limit
  rw [List.take_of_length_le (by omega)] at henumerate
  refine ⟨goals, solver, _, hgoals, henumerate, hform, ?_⟩
  rw [hlists.mem_iff, Solver.zipWith_choicesFor hkeys (hwanted.imp fun _ _ h => h.truth)]
  exact and_iff_right (Scenario.obeys_fixedBeside.mpr ⟨false, rfl⟩)

/-- A condition that the enumeration leaves open follows from a scenario of
acyclic conditions exactly if it is true in every scenario that the enumeration
lists beside the fixed one, as soon as the limit leaves room for two. Nothing
follows if the scenario or the condition leads to a cycle. -/
theorem checkImplies_iff_forall_enumerate (index : ConditionIndex) (scenario : Scenario)
    (target : String) (hopen : scenario.get? target = none) :
    index.buildScenarios (scenario.fixedBeside target) none =
        Solver.enumerate index none (scenario.fixedBeside target) index.maxScenarios ∧
      ((∀ name ∈ Entries.keys (scenario.fixedBeside target), index.Acyclic name) →
        ∀ limit, 1 < limit → ∃ found,
          Solver.enumerate index none (scenario.fixedBeside target) limit = .ok found ∧
          (index.checkImplies scenario target = true ↔
            ∀ other ∈ found, other.get? target = some true)) ∧
      ((∃ name ∈ Entries.keys (scenario.fixedBeside target), ¬index.Acyclic name) →
        index.checkImplies scenario target = false) := by
  refine ⟨buildScenarios_eq_enumerate none, fun hacyclic limit hlimit => ?_, ?_⟩
  · obtain ⟨goals, solver, found, hgoals, henumerate, hform, hfalse⟩ :=
      exists_enumerate_fixedBeside hacyclic hlimit
    refine ⟨found, henumerate, ?_⟩
    rw [checkImplies_of_compileGoals hopen hgoals, Bool.not_eq_true', ← Bool.not_eq_true, ← hfalse]
    constructor
    · intro hnone other hother
      obtain ⟨truth, rfl⟩ := hform other hother
      cases truth with
      | true => exact Scenario.get?_concat hopen true
      | false => exact absurd hother hnone
    · intro hall hmem
      have htrue := hall _ hmem
      rw [Scenario.get?_concat hopen false] at htrue
      cases htrue
  · rintro ⟨name, hname, hcyclic⟩
    rw [keys_fixedBeside scenario target false] at hname
    rw [checkImplies, hopen]
    dsimp only
    split
    · rfl
    · next goals solver hcompile =>
      have hvetted := Solver.vets_compileGoals _ {} goals solver .empty hcompile
      exact absurd (hvetted.2 name hname) hcyclic

/-- A condition that is its own opposite. -/
def paradoxIndex : ConditionIndex where
  conditions := [("Paradox", .not (.condition "Paradox"))]
  allowedValues := []
  maxScenarios := 16

/-- What is live follows from the stage but not from the region, and nothing
follows about a paradox. -/
theorem checkImplies_iff_forall_enumerate_stage :
    (∃ found, Solver.enumerate (ofTemplate stageTemplate {}) none
        [("IsProd", .only true), ("IsLive", .both)] 2 = .ok found ∧
        ∀ other ∈ found, other.get? "IsLive" = some true) ∧
      (∃ found, Solver.enumerate (ofTemplate stageTemplate {}) none
        [("IsLocal", .only true), ("IsLive", .both)] 2 = .ok found ∧
        ¬∀ other ∈ found, other.get? "IsLive" = some true) ∧
      paradoxIndex.checkImplies ⟨[]⟩ "Paradox" = false := by
  have hrefers : paradoxIndex.Refers "Paradox" "Paradox" :=
    ⟨.not (.condition "Paradox"), rfl, List.mem_singleton_self _⟩
  have hcyclic : ¬paradoxIndex.Acyclic "Paradox" :=
    fun hacyclic => hacyclic "Paradox" .refl (.single hrefers)
  have hprod := checkImplies_iff_forall_enumerate (ofTemplate stageTemplate {})
    ⟨[("IsProd", true)]⟩ "IsLive" rfl
  have hlocal := checkImplies_iff_forall_enumerate (ofTemplate stageTemplate {})
    ⟨[("IsLocal", true)]⟩ "IsLive" rfl
  have hparadox := checkImplies_iff_forall_enumerate paradoxIndex ⟨[]⟩ "Paradox" rfl
  obtain ⟨live, hlive, himplied⟩ := hprod.2.1 (fun name _ => acyclic_stageTemplate name) 2
    (by decide)
  obtain ⟨either, heither, hopen⟩ := hlocal.2.1 (fun name _ => acyclic_stageTemplate name) 2
    (by decide)
  have hfollows : (ofTemplate stageTemplate {}).checkImplies ⟨[("IsProd", true)]⟩ "IsLive" =
      true := by decide +kernel
  have hfails : (ofTemplate stageTemplate {}).checkImplies ⟨[("IsLocal", true)]⟩ "IsLive" ≠
      true := by decide +kernel
  refine ⟨⟨live, hlive, himplied.mp hfollows⟩, ⟨either, heither, fun hall => ?_⟩, ?_⟩
  · exact hfails (hopen.mpr hall)
  · exact hparadox.2.2 ⟨"Paradox", List.mem_singleton_self _, hcyclic⟩

end ConditionIndex

end StackTemplate
