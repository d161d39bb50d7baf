import StackTemplate.Condition.Expr
import StackTemplate.Settings
import StackTemplate.Template

/-!
# The conditions of a template

The index holds the named conditions, the values that parameters are allowed
to have, and the limit on enumerations.
-/

namespace StackTemplate

/-- The named conditions of a template, with what is known of parameters. -/
structure ConditionIndex where
  /-- The expression of every name. -/
  conditions : List (String × ConditionExpr)
  /-- The texts of the allowed values of every parameter that declares them. -/
  allowedValues : List (String × List String)
  /-- The greatest number of scenarios that one enumeration returns. -/
  maxScenarios : Nat

namespace ConditionIndex

/-- The index of a template. -/
def ofTemplate (template : Template) (settings : Settings) : ConditionIndex :=
  { conditions := (template.conditions?.getD []).map fun (name, value) =>
      (name, ConditionExpr.ofValue value)
    allowedValues := (template.parameters?.getD []).filterMap fun (name, parameter) =>
      (Parameter.allowedTexts? parameter).map fun texts => (name, texts)
    maxScenarios := settings.maxScenarios }

/-- The expression of a name. -/
def get? (index : ConditionIndex) (name : String) : Option ConditionExpr :=
  Entries.get? name index.conditions

/-- The names in order. -/
def names (index : ConditionIndex) : List String := Entries.keys index.conditions

/-- The allowed values of a parameter. -/
def allowed? (index : ConditionIndex) (parameter : String) : Option (List String) :=
  Entries.get? parameter index.allowedValues

end ConditionIndex

end StackTemplate
