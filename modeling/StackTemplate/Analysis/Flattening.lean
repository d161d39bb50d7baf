import StackTemplate.Condition.Scenario
import StackTemplate.Ternary

/-!
# Values under a scenario

Under a scenario every ternary is replaced by the branch it selects, and
references to the absent value are removed from the lists and mappings they
stand in.
-/

namespace StackTemplate.Value

mutual

/-- A value under a scenario; none if the whole value is absent. A ternary
whose condition the scenario does not decide stays as it is. -/
def under? (scenario : Scenario) : Value → Option Value
  | .object [("Fn::If", .array [.string condition, whenTrue, whenFalse])] =>
    match scenario.get? condition with
    | some true => under? scenario whenTrue
    | some false => under? scenario whenFalse
    | none => some (.object [("Fn::If", .array [.string condition, whenTrue, whenFalse])])
  | .object [("Ref", .string "AWS::NoValue")] => none
  | .object entries => some (.object (entriesUnder scenario entries))
  | .array items => some (.array (itemsUnder scenario items))
  | scalar => some scalar

/-- The items that are present under a scenario. -/
def itemsUnder (scenario : Scenario) : List Value → List Value
  | [] => []
  | item :: items =>
    match under? scenario item with
    | some present => present :: itemsUnder scenario items
    | none => itemsUnder scenario items

/-- The entries that are present under a scenario. -/
def entriesUnder (scenario : Scenario) : List (String × Value) → List (String × Value)
  | [] => []
  | (key, value) :: entries =>
    match under? scenario value with
    | some present => (key, present) :: entriesUnder scenario entries
    | none => entriesUnder scenario entries

end

/-- Whether a value is a mapping without entries. -/
def isEmptyObject : Value → Bool
  | .object [] => true
  | _ => false

end StackTemplate.Value

namespace StackTemplate

/-- One shape of a value. -/
structure Flattened where
  /-- The scenario it has the shape in; none if the value has no ternaries. -/
  scenario : Option Scenario
  /-- The value in that shape. -/
  value : Value

end StackTemplate
