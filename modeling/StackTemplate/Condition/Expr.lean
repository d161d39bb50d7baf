import StackTemplate.Value.Digest

/-!
# Condition expressions

The conditions section gives names to Boolean expressions. Comparisons,
connectives and references to other conditions are understood; anything else
is an unknown truth value, identified by its digest.
-/

namespace StackTemplate

/-- One side of a comparison. -/
inductive Operand where
  /-- The value of a parameter. -/
  | ref (name : String)
  /-- A scalar, compared by its text. -/
  | literal (text : String)
  /-- Any other expression, identified by its digest. -/
  | other (digest : String)
  deriving DecidableEq, Repr

namespace Operand

/-- The operand that a value denotes. -/
def ofValue (value : Value) : Operand :=
  match value with
  | .object [("Ref", .string name)] => .ref name
  | value =>
    match value.scalarText? with
    | some text => .literal text
    | none => .other value.digest

/-- A text that identifies the operand. -/
def key : Operand → String
  | .ref name => "ref:" ++ name
  | .literal text => "literal:" ++ text
  | .other digest => "expr:" ++ digest

end Operand

/-- A condition expression. -/
inductive ConditionExpr where
  /-- Whether two operands are equal. -/
  | equals (left right : Operand)
  /-- Whether all operands hold. -/
  | and (operands : List ConditionExpr)
  /-- Whether any operand holds. -/
  | or (operands : List ConditionExpr)
  /-- Whether the operand does not hold. -/
  | not (operand : ConditionExpr)
  /-- Whether another named condition holds. -/
  | condition (name : String)
  /-- An unknown truth value, identified by its digest. -/
  | unknown (digest : String)

namespace ConditionExpr

mutual

/-- The expression that a value denotes. -/
def ofValue : Value → ConditionExpr
  | .object [("Fn::Equals", .array [left, right])] =>
    .equals (Operand.ofValue left) (Operand.ofValue right)
  | .object [("Fn::And", .array (first :: others))] => .and (ofValue first :: ofValues others)
  | .object [("Fn::Or", .array (first :: others))] => .or (ofValue first :: ofValues others)
  | .object [("Fn::Not", .array [operand])] => .not (ofValue operand)
  | .object [("Condition", .string name)] => .condition name
  | value => .unknown value.digest

/-- The expressions that several values denote. -/
def ofValues : List Value → List ConditionExpr
  | [] => []
  | value :: values => ofValue value :: ofValues values

end

mutual

/-- The names of the conditions that an expression refers to, in order and as
often as it does. -/
def references : ConditionExpr → List String
  | .and operands => allReferences operands
  | .or operands => allReferences operands
  | .not operand => references operand
  | .condition name => [name]
  | .equals _ _ => []
  | .unknown _ => []

/-- The names of the conditions that several expressions refer to. -/
def allReferences : List ConditionExpr → List String
  | [] => []
  | operand :: operands => references operand ++ allReferences operands

end

end ConditionExpr

end StackTemplate
