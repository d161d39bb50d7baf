import StackTemplate.Condition.Scenario
import StackTemplate.Template
import StackTemplate.Ternary

/-!
# Conditions along a path

A path into a resource or an output is reached only if its guard holds. On the
way it may enter a branch of a ternary, which fixes the condition's truth
value, or pass a ternary in another way, which leaves it open.
-/

namespace StackTemplate

/-- What is asked about the conditions along a path. -/
structure PathQuery where
  /-- The path. -/
  path : Path
  /-- Whether ternaries inside calls of other functions count. -/
  insideFunctions : Bool
  /-- Whether only the last ternary counts. -/
  onlyDeepest : Bool
  deriving DecidableEq

namespace PathQuery

/-- The condition that guards the resource or output that a path leads into. -/
def guard? (root : Value) : Path → Option String
  | .key part :: .key name :: _ => do
    if part = "Resources" ∨ part = "Outputs" then
      let entities ← root.get? part
      let entity ← entities.get? name
      let condition ← entity.get? "Condition"
      condition.string?
    else none
  | _ => none

/-- The truth values that a ternary's condition may have if a path goes on from
the ternary with the given steps. -/
def taken : Path → TruthSet
  | .key "Fn::If" :: .index 1 :: _ => .only true
  | .key "Fn::If" :: .index 2 :: _ => .only false
  | _ => .both

/-- The constraints by the ternaries on the way, from a value on. -/
def branches (query : PathQuery) : (path : Path) → (value : Value) → (insideFunction : Bool) →
    (found : Constraints) → Constraints
  | [], _, _, found => found
  | segment :: path, value, insideFunction, found =>
    let found := match Ternary.ofValue? value with
      | some ternary =>
        if query.insideFunctions || !insideFunction then
          Constraints.extend (if query.onlyDeepest then [] else found) ternary.condition
            (taken (segment :: path))
        else found
      | none => found
    match value.step? segment with
    | some part => branches query path part (insideFunction || value.callsOther) found
    | none => found

/-- The constraints that hold wherever the path is reached: the guard, then the
ternaries on the way. -/
def constraints (query : PathQuery) (root : Value) : Constraints :=
  let guard : Constraints := match guard? root query.path with
    | some name => [(name, .only true)]
    | none => []
  (branches query query.path root false []).foldl
    (fun constraints pair => Constraints.extend constraints pair.1 pair.2) guard

end PathQuery

end StackTemplate
