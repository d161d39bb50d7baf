import StackTemplate.Condition.Formula
import StackTemplate.Condition.Index
import StackTemplate.Condition.Scenario

/-!
# Satisfiable scenarios

Every named condition is compiled to a formula. Its atoms are comparisons,
names that are not defined and expressions that are not understood. A
parameter has at most one value, and one of its allowed values if it declares
any; in a known region, comparisons with the region are decided. A search over
the atoms decides which truth values conditions can take together.
-/

namespace StackTemplate

/-- Why there are no scenarios. -/
inductive ScenarioError where
  /-- A condition is defined in terms of itself. -/
  | cycle (name : String)
  deriving DecidableEq, Repr

/-- The wording of the error. -/
def ScenarioError.message : ScenarioError → String
  | .cycle name => "condition " ++ name ++ " is defined in terms of itself"

/-- What an atom stands for. -/
structure Atom where
  /-- The text that identifies it. -/
  key : String
  /-- The parameter and the text that it compares, if it does so. -/
  equals : Option (String × String)
  deriving DecidableEq, Repr

/-- What has been compiled so far. -/
structure Solver where
  /-- The atoms, numbered from zero. -/
  atoms : List Atom := []
  /-- The formulas of conditions that are compiled. -/
  compiled : List (String × Formula) := []

/-- A compilation: it may meet new atoms and may find a cycle. -/
abbrev Compilation := StateT Solver (Except ScenarioError)

namespace Solver

/-- The number of the atom with a key; a key not met before gets a new atom. -/
def atomNumber (key : String) (equals : Option (String × String)) (solver : Solver) :
    Nat × Solver :=
  match solver.atoms.findIdx? fun atom => atom.key = key with
  | some number => (number, solver)
  | none => (solver.atoms.length, { solver with atoms := solver.atoms ++ [⟨key, equals⟩] })

/-- The formula of the atom with a key. -/
def atom (key : String) (equals : Option (String × String)) : Compilation Formula :=
  fun solver =>
    let (number, solver) := solver.atomNumber key equals
    .ok (.atom number, solver)

/-- The formula of a comparison of a parameter with a text. -/
def compileMatch (index : ConditionIndex) (region : Option String) (parameter text : String) :
    Compilation Formula :=
  let comparison := atom ("equals:" ++ parameter ++ "=" ++ text) (some (parameter, text))
  let declared : Compilation Formula :=
    match index.allowed? parameter with
    | some allowed => if text ∈ allowed then comparison else return .const false
    | none => comparison
  match region with
  | some region =>
    if parameter = "AWS::Region" then return .const (region == text) else declared
  | none => declared

/-- The key of a comparison, in which the order of operands does not matter. -/
def pairKey (left right : Operand) : String :=
  if right.key < left.key then "equals:" ++ right.key ++ "=" ++ left.key
  else "equals:" ++ left.key ++ "=" ++ right.key

/-- The formula of a comparison. -/
def compileEquals (index : ConditionIndex) (region : Option String) (left right : Operand) :
    Compilation Formula :=
  match left, right with
  | .literal left, .literal right => return .const (left == right)
  | .ref parameter, .literal text => compileMatch index region parameter text
  | .literal text, .ref parameter => compileMatch index region parameter text
  | left, right =>
    match left, right with
    | .ref a, .ref b =>
      if a = b then return .const true else atom (pairKey left right) none
    | _, _ => atom (pairKey left right) none

mutual

/-- The formula of an expression, given the compilation of the conditions that
it refers to. -/
def compileExpr (index : ConditionIndex) (region : Option String)
    (compileName : String → Compilation Formula) : ConditionExpr → Compilation Formula
  | .equals left right => compileEquals index region left right
  | .and operands => .and <$> compileExprs index region compileName operands
  | .or operands => .or <$> compileExprs index region compileName operands
  | .not operand => .not <$> compileExpr index region compileName operand
  | .condition name => compileName name
  | .unknown digest => atom ("opaque:" ++ digest) none

/-- The formulas of several expressions. -/
def compileExprs (index : ConditionIndex) (region : Option String)
    (compileName : String → Compilation Formula) :
    List ConditionExpr → Compilation (List Formula)
  | [] => return []
  | operand :: operands => do
    let formula ← compileExpr index region compileName operand
    let formulas ← compileExprs index region compileName operands
    return formula :: formulas

end

/-- Notes the formula of a condition. -/
def remember (name : String) (formula : Formula) : Compilation Formula :=
  fun solver => .ok (formula, { solver with compiled := (name, formula) :: solver.compiled })

/-- The formula of a named condition, while the conditions on the stack are
being compiled. The first argument bounds the height of the stack; it is never
used up, because the names on the stack are different and all defined. -/
def compileNested (index : ConditionIndex) (region : Option String) (height : Nat)
    (stack : List String) (name : String) : Compilation Formula := do
  match Entries.get? name (← get).compiled with
  | some formula => return formula
  | none =>
    if name ∈ stack then throw (.cycle name)
    else
      match index.get? name with
      | none => do remember name (← atom ("condition:" ++ name) none)
      | some expr =>
        match height with
        | 0 => throw (.cycle name)
        | height + 1 => do
          let formula ←
            compileExpr index region (compileNested index region height (name :: stack)) expr
          remember name formula

/-- The formula of a named condition. -/
def compile (index : ConditionIndex) (region : Option String) (name : String) :
    Compilation Formula :=
  compileNested index region index.conditions.length [] name

/-- The atoms that compare one parameter, with the texts they compare it with. -/
structure Comparisons where
  /-- The parameter. -/
  parameter : String
  /-- The atoms. -/
  atoms : List (Nat × String)

/-- Adds an atom to the comparisons of its parameter. -/
def addComparison (parameter text : String) (number : Nat) :
    List Comparisons → List Comparisons
  | [] => [⟨parameter, [(number, text)]⟩]
  | group :: groups =>
    if group.parameter = parameter then
      { group with atoms := group.atoms ++ [(number, text)] } :: groups
    else group :: addComparison parameter text number groups

/-- The given atoms that compare parameters, by parameter. -/
def comparisons (solver : Solver) (numbers : List Nat) : List Comparisons :=
  numbers.foldl (fun groups number =>
    match (solver.atoms[number]?).bind Atom.equals with
    | some (parameter, text) => addComparison parameter text number groups
    | none => groups) []

/-- Whether a parameter can have a value: it does not equal two texts, and it
does not differ from all its allowed values. -/
def Comparisons.consistent (index : ConditionIndex) (group : Comparisons)
    (assignment : Assignment) : Bool :=
  let matched := group.atoms.countP fun (number, _) => assignment number == some true
  let rejected (text : String) : Bool :=
    group.atoms.any fun (number, other) => other == text && assignment number == some false
  decide (matched ≤ 1) &&
    match index.allowed? group.parameter with
    | some allowed => allowed.isEmpty || !allowed.all rejected
    | none => true

/-- How far an assignment settles what is wanted of formulas. -/
inductive Verdict where
  /-- A formula has not the wanted truth value. -/
  | violated
  /-- Every formula has the wanted truth value. -/
  | settled
  /-- Open atoms decide. -/
  | undecided
  deriving DecidableEq, Repr

/-- How far an assignment settles what is wanted of formulas. -/
def verdict (assignment : Assignment) : List (Formula × Bool) → Verdict
  | [] => .settled
  | (formula, wanted) :: goals =>
    match formula.eval assignment with
    | some truth => if truth = wanted then verdict assignment goals else .violated
    | none =>
      match verdict assignment goals with
      | .violated => .violated
      | _ => .undecided

/-- Whether the given atoms can take truth values under which every formula has
the wanted one. True is tried before false, and an assignment that already
contradicts itself or the wanted values is not continued. -/
def search (index : ConditionIndex) (groups : List Comparisons) (goals : List (Formula × Bool)) :
    List Nat → Assignment → Bool
  | numbers, assignment =>
    if groups.all fun group => group.consistent index assignment then
      match verdict assignment goals with
      | .violated => false
      | .settled => true
      | .undecided =>
        match numbers with
        | [] => false
        | number :: numbers =>
          search index groups goals numbers (assignment.set number true) ||
            search index groups goals numbers (assignment.set number false)
    else false

/-- The atoms of all formulas, ascending. -/
def relevantAtoms (goals : List (Formula × Bool)) : List Nat :=
  goals.foldl (fun found goal => Formula.addAtoms found goal.1) []

/-- Whether formulas can have the wanted truth values together. -/
def satisfiable (index : ConditionIndex) (solver : Solver) (goals : List (Formula × Bool)) : Bool :=
  let numbers := relevantAtoms goals
  search index (solver.comparisons numbers) goals numbers .empty

/-- A condition whose truth value is to be chosen. -/
structure Choice where
  /-- The name of the condition. -/
  name : String
  /-- Its formula. -/
  formula : Formula
  /-- The truth values it may take. -/
  truths : TruthSet

/-- What the given truth values contribute one after the other, cut off at
`limit` elements. -/
def collectUpTo {α : Type} (contribution : Bool → Nat → List α) : Nat → List Bool → List α
  | _, [] => []
  | limit, truth :: truths =>
    if limit = 0 then []
    else
      let here := contribution truth limit
      here ++ collectUpTo contribution (limit - here.length) truths

/-- The satisfiable scenarios that continue truth values already chosen, in
lexicographic order with true before false, and no more than `limit` of them. -/
def enumerateFrom (index : ConditionIndex) (solver : Solver) :
    List Choice → List (Choice × Bool) → Nat → List Scenario
  | [], chosen, limit =>
    if limit = 0 then [] else [⟨chosen.map fun (choice, truth) => (choice.name, truth)⟩]
  | choice :: choices, chosen, limit =>
    collectUpTo (fun truth limit =>
      let chosen := chosen ++ [(choice, truth)]
      if satisfiable index solver (chosen.map fun (choice, truth) => (choice.formula, truth)) then
        enumerateFrom index solver choices chosen limit
      else []) limit choice.truths.descending

/-- Compiles the conditions that are constrained. -/
def compileChoices (index : ConditionIndex) (region : Option String) :
    Constraints → Compilation (List Choice)
  | [] => return []
  | (name, truths) :: constraints => do
    let formula ← compile index region name
    let choices ← compileChoices index region constraints
    return ⟨name, formula, truths⟩ :: choices

/-- Compiles the conditions of a scenario, with their truth values. -/
def compileGoals (index : ConditionIndex) (region : Option String) :
    List (String × Bool) → Compilation (List (Formula × Bool))
  | [] => return []
  | (name, truth) :: truths => do
    let formula ← compile index region name
    let goals ← compileGoals index region truths
    return (formula, truth) :: goals

end Solver

namespace ConditionIndex

/-- The satisfiable scenarios that give every constrained name one of its
truth values, no more than the limit. -/
def buildScenarios (index : ConditionIndex) (constraints : Constraints)
    (region : Option String) : Except ScenarioError (List Scenario) :=
  match (Solver.compileChoices index region constraints).run {} with
  | .error error => .error error
  | .ok (choices, solver) => .ok (solver.enumerateFrom index choices [] index.maxScenarios)

/-- Whether a condition holds whenever the conditions of a scenario have their
truth values. A cycle is taken as no. -/
def checkImplies (index : ConditionIndex) (scenario : Scenario) (target : String) : Bool :=
  match scenario.get? target with
  | some truth => truth
  | none =>
    match (Solver.compileGoals index none (scenario.truths ++ [(target, false)])).run {} with
    | .error _ => false
    | .ok (goals, solver) => !solver.satisfiable index goals

end ConditionIndex

end StackTemplate
