import Mathlib.Logic.Relation
import StackTemplate.Proofs.Termination

/-!
# The order of operands

A comparison says the same whichever operand is written first: it is decided by
the same rule, or it becomes the same atom. So an expression with the operands
of a comparison swapped is compiled step by step as it was before, every atom
gets the number that it had, and neither scenarios nor implications can tell
two templates apart in which any number of comparisons are turned around.
-/

namespace StackTemplate

namespace Value

/-- The operands of one comparison inside a condition expression are swapped. -/
inductive SwapsOperands : Value → Value → Prop where
  /-- The expression is the comparison. -/
  | comparison (left right : Value) :
      SwapsOperands (.object [("Fn::Equals", .array [left, right])])
        (.object [("Fn::Equals", .array [right, left])])
  /-- The comparison stands in an operand of a conjunction. -/
  | and {before after : List Value} {operand other : Value} (h : SwapsOperands operand other) :
      SwapsOperands (.object [("Fn::And", .array (before ++ operand :: after))])
        (.object [("Fn::And", .array (before ++ other :: after))])
  /-- The comparison stands in an operand of a disjunction. -/
  | or {before after : List Value} {operand other : Value} (h : SwapsOperands operand other) :
      SwapsOperands (.object [("Fn::Or", .array (before ++ operand :: after))])
        (.object [("Fn::Or", .array (before ++ other :: after))])
  /-- The comparison stands in the operand of a negation. -/
  | not {operand other : Value} (h : SwapsOperands operand other) :
      SwapsOperands (.object [("Fn::Not", .array [operand])])
        (.object [("Fn::Not", .array [other])])

end Value

/-- The operands of one comparison in the conditions of a template are swapped,
and nothing else is changed. -/
inductive Template.SwapsOperands : Template → Template → Prop where
  /-- The comparison stands in the condition with some name. -/
  | condition {source : Option String} {before after earlier later : List (String × Value)}
      {name : String} {value other : Value} (h : value.SwapsOperands other) :
      SwapsOperands
        ⟨source, .object (before ++ ("Conditions", .object (earlier ++ (name, value) :: later)) ::
          after)⟩
        ⟨source, .object (before ++ ("Conditions", .object (earlier ++ (name, other) :: later)) ::
          after)⟩

namespace ConditionExpr

/-- Several values denote what each of them does. -/
theorem ofValues_eq_map (values : List Value) : ofValues values = values.map ofValue := by
  induction values with
  | nil => rfl
  | cons value values ih => rw [ofValues, ih, List.map_cons]

/-- A connective that is understood with a first operand is understood wherever
an operand stands. -/
theorem ofValue_connective {key : String} {connective : List ConditionExpr → ConditionExpr}
    (h : ∀ first others, ofValue (.object [(key, .array (first :: others))]) =
      connective (ofValues (first :: others)))
    (before after : List Value) (operand : Value) :
    ofValue (.object [(key, .array (before ++ operand :: after))]) =
      connective ((before ++ operand :: after).map ofValue) := by
  rw [← ofValues_eq_map]
  cases before <;> exact h _ _

end ConditionExpr

/-- What a comparison comes to does not depend on the order of its operands. -/
theorem Reading.ofOperands_comm (index : ConditionIndex) (region : Option String)
    (left right : Operand) :
    ofOperands index region left right = ofOperands index region right left := by
  have hpair : ∀ first second : Operand,
      Reading.free (.pair s(first, second)) = .free (.pair s(second, first)) :=
    fun _ _ => congrArg (fun operands => Reading.free (.pair operands)) Sym2.eq_swap
  cases left with
  | literal first =>
    cases right with
    | literal second => exact congrArg Reading.decided BEq.comm
    | ref second => rfl
    | other digest => exact hpair _ _
  | ref first =>
    cases right with
    | literal second => rfl
    | ref second =>
      rw [ofOperands, ofOperands, hpair]
      exact if_congr eq_comm rfl rfl
    | other digest => exact hpair _ _
  | other digest => cases right <;> exact hpair _ _

namespace Solver

section Expressions

variable {region : Option String} {compileName : String → Compilation Formula}

/-- A comparison is compiled alike in both orders. -/
theorem compileEquals_comm (index : ConditionIndex) (left right : Operand) :
    compileEquals index region left right = compileEquals index region right left := by
  rw [compileEquals_eq, compileEquals_eq, Reading.ofOperands_comm]

/-- Operands are compiled as before if one of them is. -/
theorem compileExprs_of_operand (index : ConditionIndex) {operand other : ConditionExpr}
    (h : compileExpr index region compileName operand = compileExpr index region compileName other)
    (before after : List ConditionExpr) :
    compileExprs index region compileName (before ++ operand :: after) =
      compileExprs index region compileName (before ++ other :: after) := by
  simp only [compileExprs_eq_mapM, List.mapM_append, List.mapM_cons, h]

/-- An expression with the operands of a comparison swapped is compiled as it was
before. -/
theorem compileExpr_of_swapsOperands (index : ConditionIndex) {value other : Value}
    (h : value.SwapsOperands other) :
    compileExpr index region compileName (.ofValue value) =
      compileExpr index region compileName (.ofValue other) := by
  have hand := @ConditionExpr.ofValue_connective "Fn::And" .and fun _ _ => rfl
  have hor := @ConditionExpr.ofValue_connective "Fn::Or" .or fun _ _ => rfl
  induction h with
  | comparison left right => exact compileEquals_comm index _ _
  | and h ih =>
    simp only [hand, List.map_append, List.map_cons, compileExpr, compileExprs_of_operand index ih]
  | or h ih =>
    simp only [hor, List.map_append, List.map_cons, compileExpr, compileExprs_of_operand index ih]
  | not h ih => rw [ConditionExpr.ofValue, ConditionExpr.ofValue, compileExpr, compileExpr, ih]

end Expressions

section Search

variable {first second : ConditionIndex} (h : first.allowedValues = second.allowedValues)

include h

/-- Of an index, only the allowed values matter to the search. -/
theorem search_congr (groups : List Comparisons) (goals : List (Formula × Bool))
    (numbers : List Nat) (assignment : Assignment) :
    search first groups goals numbers assignment =
      search second groups goals numbers assignment := by
  have hconsistent : ∀ assignment, (fun group : Comparisons => group.consistent first assignment) =
      fun group => group.consistent second assignment := by
    intro assignment
    funext group
    rw [Comparisons.consistent, Comparisons.consistent, ConditionIndex.allowed?,
      ConditionIndex.allowed?, h]
  induction numbers generalizing assignment with
  | nil => rw [search, search, hconsistent]
  | cons number numbers ih => rw [search, search, hconsistent, ih, ih]

/-- Of an index, only the allowed values matter to satisfiability. -/
theorem satisfiable_congr (solver : Solver) (goals : List (Formula × Bool)) :
    satisfiable first solver goals = satisfiable second solver goals :=
  search_congr h _ goals _ _

/-- Of an index, only the allowed values matter to the enumeration. -/
theorem enumerateFrom_congr (solver : Solver) (choices : List Choice)
    (chosen : List (Choice × Bool)) (limit : Nat) :
    enumerateFrom first solver choices chosen limit =
      enumerateFrom second solver choices chosen limit := by
  induction choices generalizing chosen limit with
  | nil => rfl
  | cons choice choices ih =>
    simp only [enumerateFrom, satisfiable_congr h, ih]

end Search

end Solver

namespace ConditionIndex

/-- Two indices are compiled alike: the same names are defined, and their
expressions have the same formulas. -/
structure CompiledAlike (first second : ConditionIndex) : Prop where
  /-- The allowed values are the same. -/
  allowed : first.allowedValues = second.allowedValues
  /-- The limit is the same. -/
  limit : first.maxScenarios = second.maxScenarios
  /-- A name is defined in neither, or it is defined in both and compiled alike. -/
  formulas : ∀ name, (first.get? name = none ∧ second.get? name = none) ∨
    ∃ expr other, first.get? name = some expr ∧ second.get? name = some other ∧
      ∀ region compileName, Solver.compileExpr first region compileName expr =
        Solver.compileExpr first region compileName other

namespace CompiledAlike

variable {first second : ConditionIndex} (h : first.CompiledAlike second)

include h

/-- One level of the recursion is the same in both. -/
theorem compileLevel_eq (region : Option String) (compileName : String → Compilation Formula)
    (stack : List String) (name : String) :
    Solver.compileLevel first region compileName stack name =
      Solver.compileLevel second region compileName stack name := by
  unfold Solver.compileLevel
  rcases h.formulas name with ⟨hfirst, hsecond⟩ | ⟨expr, other, hfirst, hsecond, hsame⟩
  · simp only [hfirst, hsecond]
  · simp only [hfirst, hsecond, hsame, Solver.compileExpr_congr h.allowed fun _ _ => rfl]

/-- Names are compiled alike: the compilation for one index solves the recursion
for the other, and there is only one solution. -/
theorem compile_eq (region : Option String) :
    Solver.compile first region = Solver.compile second region := by
  have hsolves : Solver.Unbounded first region
      (Solver.compileNested second region second.conditions.length) := by
    intro stack name
    rw [h.compileLevel_eq]
    exact Solver.unbounded_compileNested stack name
  have hsame := Solver.unbounded_compileNested.unique hsolves
  exact congrFun hsame []

/-- Indices that are compiled alike have the same scenarios. -/
theorem buildScenarios_eq (constraints : Constraints) (region : Option String) :
    first.buildScenarios constraints region = second.buildScenarios constraints region := by
  have hchoices : Solver.compileChoices first region constraints =
      Solver.compileChoices second region constraints := by
    rw [Solver.compileChoices_eq_mapM, Solver.compileChoices_eq_mapM, h.compile_eq]
  rw [buildScenarios, buildScenarios, hchoices, h.limit]
  simp only [Solver.enumerateFrom_congr h.allowed]

/-- Indices that are compiled alike have the same implications. -/
theorem checkImplies_eq (scenario : Scenario) (target : String) :
    first.checkImplies scenario target = second.checkImplies scenario target := by
  have hgoals : ∀ truths, Solver.compileGoals first none truths =
      Solver.compileGoals second none truths := by
    intro truths
    rw [Solver.compileGoals_eq_mapM, Solver.compileGoals_eq_mapM, h.compile_eq]
  rw [checkImplies, checkImplies, hgoals]
  simp only [Solver.satisfiable_congr h.allowed]

end CompiledAlike

/-- Two expressions under a name that are compiled alike may be exchanged. -/
theorem compiledAlike_of_expr {index : ConditionIndex}
    {before after : List (String × ConditionExpr)} {name : String} {expr other : ConditionExpr}
    (hconditions : index.conditions = before ++ (name, expr) :: after)
    (hsame : ∀ region compileName, Solver.compileExpr index region compileName expr =
      Solver.compileExpr index region compileName other) :
    index.CompiledAlike { index with conditions := before ++ (name, other) :: after } where
  allowed := rfl
  limit := rfl
  formulas asked := by
    have hsecond : get? { index with conditions := before ++ (name, other) :: after } asked =
        (Entries.get? asked before).or
          (if name = asked then some other else Entries.get? asked after) := Entries.get?_append ..
    rw [get?, hconditions, Entries.get?_append, hsecond, Entries.get?]
    cases Entries.get? asked before with
    | some found => exact .inr ⟨found, found, rfl, rfl, fun _ _ => rfl⟩
    | none =>
      by_cases hname : name = asked
      · simp only [if_pos hname, Option.none_or]
        exact .inr ⟨expr, other, rfl, rfl, hsame⟩
      · simp only [if_neg hname, Option.none_or]
        cases Entries.get? asked after with
        | some found => exact .inr ⟨found, found, rfl, rfl, fun _ _ => rfl⟩
        | none => exact .inl ⟨rfl, rfl⟩

/-- An index is compiled as it is. -/
theorem CompiledAlike.refl (index : ConditionIndex) : index.CompiledAlike index where
  allowed := rfl
  limit := rfl
  formulas name := by
    cases hexpr : index.get? name with
    | none => exact .inl ⟨rfl, rfl⟩
    | some expr => exact .inr ⟨expr, expr, rfl, rfl, fun _ _ => rfl⟩

/-- A template with the operands of one comparison swapped is compiled as before. -/
theorem compiledAlike_of_swapsOperands {first second : Template} (h : first.SwapsOperands second)
    (settings : Settings) :
    (ofTemplate first settings).CompiledAlike (ofTemplate second settings) := by
  cases h with
  | @condition source before after earlier later name value other hswaps =>
    have hsection : ∀ (conditions : Value) (asked : String),
        Template.section? ⟨source, .object (before ++ ("Conditions", conditions) :: after)⟩ asked =
          ((Entries.get? asked before).or (if "Conditions" = asked then some conditions
            else Entries.get? asked after)).bind Value.entries? := fun conditions asked =>
      congrArg (·.bind Value.entries?) (Entries.get?_append asked before _)
    have hparameters : ∀ conditions : Value,
        Template.parameters? ⟨source, .object (before ++ ("Conditions", conditions) :: after)⟩ =
          ((Entries.get? "Parameters" before).or (Entries.get? "Parameters" after)).bind
            Value.entries? := fun conditions => hsection conditions "Parameters"
    cases hbefore : Entries.get? "Conditions" before with
    | some found =>
      have hsame : ∀ conditions : Value,
          Template.conditions? ⟨source, .object (before ++ ("Conditions", conditions) :: after)⟩ =
            found.entries? := by
        intro conditions
        rw [Template.conditions?, hsection, hbefore]
        rfl
      simp only [ofTemplate, hsame, hparameters]
      exact .refl _
    | none =>
      have hwritten : ∀ conditions : List (String × Value), Template.conditions?
          ⟨source, .object (before ++ ("Conditions", .object conditions) :: after)⟩ =
            some conditions := by
        intro conditions
        rw [Template.conditions?, hsection, hbefore]
        rfl
      simp only [ofTemplate, hwritten, hparameters, Option.getD_some, List.map_append,
        List.map_cons]
      exact compiledAlike_of_expr rfl fun _ _ => Solver.compileExpr_of_swapsOperands _ hswaps

/-- The order of operands does not matter. If the operands of any number of
comparisons in the conditions of a template are swapped, the template has the
same scenarios in the same order, or the same cycle is found, and the same
conditions follow from every scenario. -/
theorem buildScenarios_of_swapsOperands (first second : Template)
    (h : Relation.ReflTransGen Template.SwapsOperands first second) (settings : Settings) :
    (∀ constraints region, (ofTemplate first settings).buildScenarios constraints region =
      (ofTemplate second settings).buildScenarios constraints region) ∧
    ∀ scenario target, (ofTemplate first settings).checkImplies scenario target =
      (ofTemplate second settings).checkImplies scenario target := by
  induction h with
  | refl => exact ⟨fun _ _ => rfl, fun _ _ => rfl⟩
  | tail _ hswap ih =>
    have halike := compiledAlike_of_swapsOperands hswap settings
    refine ⟨fun constraints region => ?_, fun scenario target => ?_⟩
    · rw [ih.1, halike.buildScenarios_eq]
    · rw [ih.2, halike.checkImplies_eq]

/-- A reference to a parameter. -/
def reference (name : String) : Value := .object [("Ref", .string name)]

/-- A comparison of two values. -/
def comparison (left right : Value) : Value := .object [("Fn::Equals", .array [left, right])]

/-- A stack with one comparison as a condition and another one inside a
condition. -/
def comparingTemplate (isProd isHome : Value) : Template where
  root := .object [
    ("Parameters", .object [("Stage", .object [
      ("AllowedValues", .array [.string "prod", .string "dev"])])]),
    ("Conditions", .object [
      ("IsProd", isProd),
      ("IsLive", .object [("Fn::Or", .array [.object [("Condition", .string "IsProd")],
        .object [("Fn::Not", .array [isHome])]])])])]

/-- Both comparisons start with a parameter of the stack. -/
def straightTemplate : Template :=
  comparingTemplate (comparison (reference "Stage") (.string "prod"))
    (comparison (reference "Home") (reference "AWS::Region"))

/-- Both comparisons end with it. -/
def turnedTemplate : Template :=
  comparingTemplate (comparison (.string "prod") (reference "Stage"))
    (comparison (reference "AWS::Region") (reference "Home"))

/-- The scenarios with both comparisons turned around are those of the stack as
it was. -/
theorem buildScenarios_turnedTemplate :
    Relation.ReflTransGen Template.SwapsOperands straightTemplate turnedTemplate ∧
    (ofTemplate turnedTemplate {}).buildScenarios [("IsProd", .both), ("IsLive", .both)] none =
      .ok [⟨[("IsProd", true), ("IsLive", true)]⟩, ⟨[("IsProd", false), ("IsLive", true)]⟩,
        ⟨[("IsProd", false), ("IsLive", false)]⟩] ∧
    (ofTemplate turnedTemplate {}).checkImplies ⟨[("IsProd", true)]⟩ "IsLive" = true := by
  have hprod : straightTemplate.SwapsOperands
      (comparingTemplate (comparison (.string "prod") (reference "Stage"))
        (comparison (reference "Home") (reference "AWS::Region"))) :=
    @Template.SwapsOperands.condition none [_] [] [] [_] "IsProd" _ _ (.comparison _ _)
  have hhome : Template.SwapsOperands _ turnedTemplate :=
    @Template.SwapsOperands.condition none [_] [] [_] [] "IsLive" _ _
      (@Value.SwapsOperands.or [_] [] _ _
        (.not (.comparison (reference "Home") (reference "AWS::Region"))))
  have hswapped := (Relation.ReflTransGen.single hprod).tail hhome
  obtain ⟨hscenarios, himplied⟩ := buildScenarios_of_swapsOperands _ _ hswapped {}
  have hstraight : (ofTemplate straightTemplate {}).buildScenarios
      [("IsProd", .both), ("IsLive", .both)] none =
        .ok [⟨[("IsProd", true), ("IsLive", true)]⟩, ⟨[("IsProd", false), ("IsLive", true)]⟩,
          ⟨[("IsProd", false), ("IsLive", false)]⟩] := by decide +kernel
  have hfollows : (ofTemplate straightTemplate {}).checkImplies ⟨[("IsProd", true)]⟩ "IsLive" =
      true := by decide +kernel
  exact ⟨hswapped, (hscenarios _ _).symm.trans hstraight, (himplied _ _).symm.trans hfollows⟩

end ConditionIndex

end StackTemplate
