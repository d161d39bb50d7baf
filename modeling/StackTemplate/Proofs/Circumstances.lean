import StackTemplate.Proofs.Enumeration

/-!
# Circumstances

Whether conditions can have truth values together is a matter of the values of
parameters and of truth values for everything else that atoms are about. The
search only looks at atoms that occur, but what it finds for them can be
completed: a parameter that was not looked at takes a text that it is compared
with elsewhere, which is an allowed one.

Where parameters have plain names, the scenarios of constraints are what the
constrained names come to under such circumstances. This no longer mentions how
atoms are numbered, or in which order names are compiled and chosen.
-/

namespace StackTemplate

/-- Values that parameters can have together: the region is the given one, and
a parameter that is compared with a text has an allowed value. -/
structure ConditionIndex.Admits (index : ConditionIndex) (region : Option String)
    (roots : String → Prop) (values : String → String) : Prop where
  /-- The region is the given one. -/
  given : ∀ name, region = some name → values "AWS::Region" = name
  /-- Parameters that are compared with texts have allowed values. -/
  allowed : ∀ parameter text, index.Arises region roots (.comparison parameter text) →
    ∀ allowed, index.allowed? parameter = some allowed → values parameter ∈ allowed

namespace Solver

variable {index : ConditionIndex} {region : Option String} {roots : String → Prop}
  {solver : Solver} {values : String → String} {truth : Nat → Bool}

/-- Every atom that compares a parameter has the truth value that the value of
the parameter gives it. -/
def Matches (solver : Solver) (values : String → String) (truth : Nat → Bool) : Prop :=
  ∀ number parameter text, solver.compared? number = some (parameter, text) →
    truth number = (values parameter == text)

/-- The values of a model can be completed to values of all parameters. -/
theorem Model.exists_admits (hsound : Sound index region roots solver) {numbers : List Nat}
    (hmodel : Model index solver numbers values truth) :
    ∃ completed, index.Admits region roots completed ∧
      ∀ number ∈ numbers, ∀ parameter text,
        solver.compared? number = some (parameter, text) →
          completed parameter = values parameter := by
  have hvalue : ∀ parameter, ∃ value,
      (∀ name, region = some name → parameter = "AWS::Region" → value = name) ∧
      (∀ text, index.Arises region roots (.comparison parameter text) →
        ∀ allowed, index.allowed? parameter = some allowed → value ∈ allowed) ∧
      ∀ number ∈ numbers, ∀ text, solver.compared? number = some (parameter, text) →
        value = values parameter := by
    intro parameter
    by_cases hcompared : ∃ number ∈ numbers, ∃ text,
        solver.compared? number = some (parameter, text)
    · obtain ⟨number, hnumber, text, hcompared⟩ := hcompared
      refine ⟨values parameter, ?_, ?_, fun _ _ _ _ => rfl⟩
      · intro name hgiven hregion
        cases (hsound.region_of_compared hcompared hregion).symm.trans hgiven
      · exact fun _ _ => hmodel.allowed number hnumber parameter text hcompared
    · have hnone : ∀ number ∈ numbers, ∀ text,
          solver.compared? number ≠ some (parameter, text) :=
        fun number hnumber text h => hcompared ⟨number, hnumber, text, h⟩
      by_cases harises : ∃ text, index.Arises region roots (.comparison parameter text)
      · obtain ⟨text, harises⟩ := harises
        refine ⟨text, ?_, ?_, fun number hnumber other h => absurd h (hnone number hnumber other)⟩
        · intro name hgiven hregion
          cases (region_of_arises harises hregion).symm.trans hgiven
        · exact fun _ _ allowed hallowed => mem_allowed_of_arises harises hallowed
      · refine ⟨region.getD "", ?_, ?_, fun number hnumber other h =>
          absurd h (hnone number hnumber other)⟩
        · intro name hgiven _
          rw [hgiven, Option.getD_some]
        · exact fun text h => absurd ⟨text, h⟩ harises
  choose completed hgiven hallowed hkept using hvalue
  refine ⟨completed, ⟨fun name h => hgiven _ name h rfl, hallowed⟩, ?_⟩
  exact fun number hnumber parameter => hkept parameter number hnumber

/-- Formulas are satisfiable if and only if they have the wanted truth values
for some values of all parameters and some truth values of all other atoms. -/
theorem satisfiable_iff (hsound : Sound index region roots solver)
    {goals : List (Formula × Bool)} :
    solver.satisfiable index goals = true ↔
      ∃ values truth, index.Admits region roots values ∧ solver.Matches values truth ∧
        ∀ goal ∈ goals, goal.1.holds truth = goal.2 := by
  constructor
  · intro h
    obtain ⟨values, truth, hmodel, hgoals⟩ := exists_model_of_satisfiable hsound h
    obtain ⟨completed, hadmits, hkept⟩ := hmodel.exists_admits hsound
    let closed : Nat → Bool := fun number =>
      ((solver.compared? number).map fun pair => completed pair.1 == pair.2).getD (truth number)
    have hmatches : solver.Matches completed closed := by
      intro number parameter text hcompared
      simp only [closed, hcompared, Option.map_some, Option.getD_some]
    refine ⟨completed, closed, hadmits, hmatches, fun goal hgoal => ?_⟩
    rw [← hgoals goal hgoal]
    refine Formula.holds_congr fun number hnumber => ?_
    have hrelevant := mem_relevantAtoms.mpr ⟨goal, hgoal, hnumber⟩
    cases hcompared : solver.compared? number with
    | none => simp only [closed, hcompared, Option.map_none, Option.getD_none]
    | some pair =>
      obtain ⟨parameter, text⟩ := pair
      rw [hmatches number parameter text hcompared,
        hkept number hrelevant parameter text hcompared,
        hmodel.comparison number hrelevant parameter text hcompared]
  · rintro ⟨values, truth, hadmits, hmatches, hgoals⟩
    refine satisfiable_of_model hsound ⟨fun number _ => hmatches number, ?_⟩ hgoals
    intro number _ parameter text hcompared
    exact hadmits.allowed parameter text (hsound.exists_of_compared hcompared).1

end Solver

/-- What cannot contain an equals sign stands at the beginning of a text before
its first one. -/
theorem isPrefix_of_append_equalsSign {opening rest before after : List Char}
    (hopening : '=' ∉ opening) (h : opening ++ rest = before ++ '=' :: after) :
    opening <+: before := by
  rcases List.append_eq_append_iff.mp h with ⟨middle, hbefore, -⟩ | ⟨middle, hlong, hrest⟩
  · exact ⟨middle, hbefore.symm⟩
  · cases middle with
    | nil =>
      rw [List.append_nil] at hlong
      exact hlong ▸ List.prefix_refl _
    | cons sign middle =>
      have hsign : '=' = sign := List.head_eq_of_cons_eq hrest
      exact absurd (by rw [hlong, hsign]; simp) hopening

namespace Subject

variable {index : ConditionIndex} {region : Option String} {roots : String → Prop}

/-- In the key of a pair that nothing decides, no text comes first: two operands
that are no texts may stand in any order, and an expression comes before a text. -/
theorem exists_first_of_free {left right : Operand} {operands : Sym2 Operand}
    (h : Reading.ofOperands index region left right = .free (.pair operands)) :
    ∃ first second : Operand, operands = s(first, second) ∧ ¬second.key < first.key ∧
      ∀ text, first ≠ .literal text := by
  have hany : ∀ one other : Operand, operands = s(one, other) →
      (∀ text, one ≠ .literal text) → (∀ text, other ≠ .literal text) →
      ∃ first second : Operand, operands = s(first, second) ∧ ¬second.key < first.key ∧
        ∀ text, first ≠ .literal text := by
    intro one other hpair hone hother
    by_cases horder : other.key < one.key
    · exact ⟨other, one, hpair.trans Sym2.eq_swap, horder.asymm, hother⟩
    · exact ⟨one, other, hpair, horder, hone⟩
  have hother : ∀ digest text, operands = s(.other digest, .literal text) →
      ∃ first second : Operand, operands = s(first, second) ∧ ¬second.key < first.key ∧
        ∀ text, first ≠ .literal text :=
    fun digest text hpair =>
      ⟨.other digest, .literal text, hpair, (Operand.key_other_lt digest (by simp)).asymm, by simp⟩
  cases left with
  | literal text =>
    cases right with
    | literal other => cases h
    | ref name => cases (Reading.ofMatch_eq_free h).1
    | other digest =>
      cases h
      exact hother digest text Sym2.eq_swap
  | ref name =>
    cases right with
    | literal text => cases (Reading.ofMatch_eq_free h).1
    | ref second =>
      rw [Reading.ofOperands] at h
      split at h
      · cases h
      · cases h
        exact hany _ _ rfl (by simp) (by simp)
    | other digest =>
      cases h
      exact hany _ _ rfl (by simp) (by simp)
  | other digest =>
    cases right with
    | literal text =>
      cases h
      exact hother digest text rfl
    | ref name =>
      cases h
      exact hany _ _ rfl (by simp) (by simp)
    | other second =>
      cases h
      exact hany _ _ rfl (by simp) (by simp)

/-- The key of a pair that nothing decides is not that of a parameter with a
plain name and a text. -/
theorem key_comparison_ne_pair_of_free {left right : Operand} {operands : Sym2 Operand}
    (hfree : Reading.ofOperands index region left right = .free (.pair operands))
    {parameter : String} (hplain : PlainName parameter) (text : String) :
    (comparison parameter text).key ≠ (pair operands).key := by
  obtain ⟨first, second, rfl, horder, hfirst⟩ := exists_first_of_free hfree
  intro h
  have hlist := congrArg String.toList h
  rw [toList_key_comparison, toList_key_pair horder, List.append_cancel_left_eq,
    Operand.toList_key] at hlist
  cases first with
  | literal other => exact hfirst other rfl
  | ref name =>
    rw [List.append_assoc] at hlist
    have hstart := isPrefix_of_append_equalsSign (by decide) hlist.symm
    have hnot : ['r', 'e', 'f', ':'].isPrefixOf parameter.toList = false := hplain.noReference
    rw [List.isPrefixOf_iff_prefix.mpr hstart] at hnot
    cases hnot
  | other digest =>
    rw [List.append_assoc] at hlist
    have hstart := isPrefix_of_append_equalsSign (by decide) hlist.symm
    have hnot : ['e', 'x', 'p', 'r', ':'].isPrefixOf parameter.toList = false :=
      hplain.noExpression
    rw [List.isPrefixOf_iff_prefix.mpr hstart] at hnot
    cases hnot

/-- What arises and is no comparison of a parameter with a text has another key
than such comparisons. -/
theorem key_comparison_ne_of_arises {subject : Subject}
    (harises : index.Arises region roots subject)
    (hother : ∀ parameter text, subject ≠ .comparison parameter text) {parameter : String}
    (hplain : PlainName parameter) (text : String) :
    (comparison parameter text).key ≠ subject.key := by
  have hcomparison : (comparison parameter text).Legible := hplain
  intro hkey
  have hinitial := head?_key hcomparison
  rw [hkey] at hinitial
  cases harises with
  | unknown digest => simp [toList_key_unknown, initial] at hinitial
  | undefined name => simp [toList_key_undefined, initial] at hinitial
  | @operands left right _ hcompares hfree =>
    cases subject with
    | comparison other text => exact hother other text rfl
    | pair operands => exact key_comparison_ne_pair_of_free hfree hplain text hkey
    | unknown digest => simp [toList_key_unknown, initial] at hinitial
    | undefined name => simp [toList_key_undefined, initial] at hinitial

end Subject

/-- What arises compares parameters with plain names. -/
theorem ConditionIndex.PlainNames.of_arises {index : ConditionIndex} (hplain : index.PlainNames)
    {region : Option String} {roots : String → Prop} {parameter text : String}
    (h : index.Arises region roots (.comparison parameter text)) : PlainName parameter := by
  cases h with
  | operands hcompares hfree =>
    obtain ⟨hleft, hright⟩ := hplain.of_compares hcompares
    rcases (Reading.ofOperands_eq_comparison hfree).1 with ⟨rfl, rfl⟩ | ⟨rfl, rfl⟩
    · exact hleft
    · exact hright

/-- Circumstances that decide conditions: the values of parameters, and truth
values for the keys of everything else. -/
structure Circumstances where
  /-- The value of every parameter, the region included. -/
  value : String → String
  /-- The truth values of keys that are about anything else. -/
  other : String → Bool

namespace Circumstances

open Classical in
/-- The truth values of keys: a comparison of a parameter with a text is decided
by the value of the parameter. -/
noncomputable def keys (circumstances : Circumstances) (key : String) : Bool :=
  if ∃ parameter text, PlainName parameter ∧ (Subject.comparison parameter text).key = key then
    decide (∃ parameter, PlainName parameter ∧
      (Subject.comparison parameter (circumstances.value parameter)).key = key)
  else circumstances.other key

/-- A comparison of a parameter with a text holds if the text is its value. -/
theorem keys_comparison (circumstances : Circumstances) {parameter : String}
    (hplain : PlainName parameter) (text : String) :
    circumstances.keys (Subject.comparison parameter text).key =
      (circumstances.value parameter == text) := by
  classical
  have hlegible : ∀ text, (Subject.comparison parameter text).Legible := fun _ => hplain
  rw [keys, if_pos ⟨parameter, text, hplain, rfl⟩, Bool.eq_iff_iff, decide_eq_true_iff, beq_iff_eq]
  constructor
  · rintro ⟨other, hother, hkey⟩
    have hotherLegible : (Subject.comparison other (circumstances.value other)).Legible := hother
    cases Subject.key_injective hotherLegible (hlegible text) hkey
    rfl
  · rintro rfl
    exact ⟨parameter, hplain, rfl⟩

/-- Any other key that arises has the truth value that it is given. -/
theorem keys_of_arises (circumstances : Circumstances) {index : ConditionIndex}
    {region : Option String} {roots : String → Prop} {subject : Subject}
    (harises : index.Arises region roots subject)
    (hother : ∀ parameter text, subject ≠ .comparison parameter text) :
    circumstances.keys subject.key = circumstances.other subject.key := by
  rw [keys, if_neg]
  rintro ⟨parameter, text, hplain, hkey⟩
  exact Subject.key_comparison_ne_of_arises harises hother hplain text hkey

/-- The truth value of a name under circumstances. -/
noncomputable def truth (circumstances : Circumstances) (index : ConditionIndex)
    (region : Option String) (name : String) : Bool :=
  index.truth (.ofKeys index region circumstances.keys) name

/-- The truth values of names under circumstances. -/
noncomputable def scenario (circumstances : Circumstances) (index : ConditionIndex)
    (region : Option String) (names : List String) : Scenario :=
  ⟨names.map fun name => (name, circumstances.truth index region name)⟩

/-- Circumstances can arise and give the constrained names truth values that
the constraints allow. -/
structure Meets (circumstances : Circumstances) (index : ConditionIndex)
    (region : Option String) (constraints : Constraints) : Prop where
  /-- Parameters have values that they can have. -/
  admits : index.Admits region (· ∈ Entries.keys constraints) circumstances.value
  /-- The constraints allow the truth values. -/
  allowed : ∀ constraint ∈ constraints,
    constraint.2.contains (circumstances.truth index region constraint.1) = true

variable {index : ConditionIndex} {region : Option String} {constraints : Constraints}
  {solver : Solver} {choices : List Solver.Choice}

/-- Under circumstances, atoms that compare parameters have the truth values
that the values of the parameters give them. -/
theorem matches_valuation (circumstances : Circumstances) (hplain : index.PlainNames)
    {roots : String → Prop} (hsound : Solver.Sound index region roots solver) :
    solver.Matches circumstances.value (solver.valuation circumstances.keys) := by
  intro number parameter text hcompared
  obtain ⟨harises, hatom⟩ := hsound.exists_of_compared hcompared
  have hparameter : PlainName parameter := hplain.of_arises harises
  rw [Solver.valuation, hatom]
  exact circumstances.keys_comparison hparameter text

/-- The circumstances of truth values of atoms. -/
def ofValuation (solver : Solver) (values : String → String) (truth : Nat → Bool) :
    Circumstances where
  value := values
  other key := truth ((solver.atoms.map Atom.key).idxOf key)

/-- Atoms have their truth values under their circumstances. -/
theorem valuation_ofValuation (hplain : index.PlainNames) {roots : String → Prop}
    (hsound : Solver.Sound index region roots solver) {values : String → String}
    {truth : Nat → Bool} (hmatches : solver.Matches values truth) {number : Nat}
    (hbound : number < solver.atoms.length) :
    solver.valuation (ofValuation solver values truth).keys number = truth number := by
  obtain ⟨subject, harises, hsubject⟩ := hsound.arises _ (List.getElem_mem hbound)
  have hatom : solver.atoms[number]? = some subject.atom := by
    rw [List.getElem?_eq_getElem hbound, hsubject]
  by_cases hcomparison : ∃ parameter text, subject = .comparison parameter text
  · obtain ⟨parameter, text, rfl⟩ := hcomparison
    have hcompared : solver.compared? number = some (parameter, text) := by
      rw [Solver.compared?, hatom]
      rfl
    rw [hmatches number parameter text hcompared]
    exact matches_valuation _ hplain hsound number parameter text hcompared
  · have hother : ∀ parameter text, subject ≠ .comparison parameter text :=
      fun parameter text he => hcomparison ⟨parameter, text, he⟩
    rw [Solver.valuation, hatom]
    refine ((ofValuation solver values truth).keys_of_arises harises hother).trans ?_
    exact congrArg truth (World.numberOf_eq hsound.nodup hatom)

/-- A scenario of constraints is what the constrained names come to under
circumstances that meet the constraints. -/
theorem exists_of_mem_scenarios (hplain : index.PlainNames)
    (hsound : Solver.Sound index region (· ∈ Entries.keys constraints) solver)
    (hright : List.Forall₂ (Solver.Choice.Right index region solver) constraints choices)
    {scenario : Scenario} (h : scenario ∈ solver.scenarios index choices) :
    ∃ circumstances : Circumstances, circumstances.Meets index region constraints ∧
      circumstances.scenario index region (Entries.keys constraints) = scenario := by
  obtain ⟨made, hmade, htruths, hsatisfiable, rfl⟩ := Solver.mem_scenarios.mp h
  obtain ⟨values, truth, hadmits, hmatches, hgoals⟩ :=
    (Solver.satisfiable_iff hsound).mp hsatisfiable
  have hformula : ∀ pair ∈ made, pair.1.formula.holds
      (solver.valuation (ofValuation solver values truth).keys) = pair.2 := by
    intro pair hpair
    have hchoice : pair.1 ∈ choices := hmade ▸ List.mem_map_of_mem hpair
    obtain ⟨constraint, -, hhere⟩ := Solver.exists_of_forall₂ hright hchoice
    rw [← hgoals _ (List.mem_map_of_mem hpair)]
    refine Formula.holds_congr fun number hnumber => ?_
    exact valuation_ofValuation hplain hsound hmatches (hhere.denotes.bounded number hnumber)
  refine ⟨ofValuation solver values truth, ⟨hadmits, ?_⟩, ?_⟩
  · intro constraint hconstraint
    obtain ⟨choice, hchoice, hhere⟩ := Solver.exists_of_forall₂ hright.flip hconstraint
    rw [← hmade] at hchoice
    obtain ⟨pair, hpair, rfl⟩ := List.mem_map.mp hchoice
    have htruth : pair.2 = (ofValuation solver values truth).truth index region constraint.1 :=
      (hformula pair hpair).symm.trans (hhere.denotes.holds _)
    rw [← htruth, ← hhere.truths]
    exact htruths pair hpair
  · rw [← Solver.map_holds_eq hmade hformula]
    exact (Solver.scenarioOf_map_holds hright _).symm

/-- What the constrained names come to under circumstances that meet the
constraints is a scenario of the constraints. -/
theorem scenario_mem_scenarios (hplain : index.PlainNames)
    (hsound : Solver.Sound index region (· ∈ Entries.keys constraints) solver)
    (hright : List.Forall₂ (Solver.Choice.Right index region solver) constraints choices)
    {circumstances : Circumstances} (hmeets : circumstances.Meets index region constraints) :
    circumstances.scenario index region (Entries.keys constraints) ∈
      solver.scenarios index choices := by
  have hscenario := Solver.scenarioOf_map_holds hright circumstances.keys
  refine Solver.mem_scenarios.mpr ⟨_, ?_, ?_, ?_, hscenario⟩
  · rw [List.map_map]
    exact List.map_id choices
  · intro pair hpair
    obtain ⟨choice, hchoice, rfl⟩ := List.mem_map.mp hpair
    obtain ⟨constraint, hconstraint, hhere⟩ := Solver.exists_of_forall₂ hright hchoice
    rw [hhere.truths, hhere.denotes.holds]
    exact hmeets.allowed constraint hconstraint
  · refine (Solver.satisfiable_iff hsound).mpr ⟨circumstances.value, _, hmeets.admits,
      matches_valuation circumstances hplain hsound, fun goal hgoal => ?_⟩
    obtain ⟨pair, hpair, rfl⟩ := List.mem_map.mp hgoal
    obtain ⟨choice, -, rfl⟩ := List.mem_map.mp hpair
    rfl

end Circumstances

end StackTemplate
