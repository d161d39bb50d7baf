import StackTemplate.Analysis.Basic

/-!
# Answers of an analysis as documents

Scenarios are mappings from names to truth values, constraints are mappings from
names to lists of truth values, and every shape of a value comes with its
scenario.
-/

namespace StackTemplate

/-- A scenario as a mapping. -/
def Scenario.toValue (scenario : Scenario) : Value :=
  .object (scenario.truths.map fun (name, truth) => (name, .boolean truth))

/-- Scenarios as a list. -/
def Scenario.listValue (scenarios : List Scenario) : Value :=
  .array (scenarios.map Scenario.toValue)

/-- Constraints as a mapping; the truth values of a name are listed with the
false one first. -/
def Constraints.toValue (constraints : Constraints) : Value :=
  .object (constraints.map fun (name, truths) => (name, .array (truths.ascending.map .boolean)))

/-- A shape with its scenario, which is missing if there is nothing to decide. -/
def Flattened.toValue (flattened : Flattened) : Value :=
  .object [("scenario", (flattened.scenario.map Scenario.toValue).getD .null),
    ("value", flattened.value)]

/-- Shapes as a list. -/
def Flattened.listValue (shapes : List Flattened) : Value :=
  .array (shapes.map Flattened.toValue)

end StackTemplate
