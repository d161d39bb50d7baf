import StackTemplate.Intrinsic
import StackTemplate.Value.Path

/-!
# Ternaries

A ternary chooses one of two values by a named condition. Only calls with
exactly a name and two branches are ternaries; others are ordinary data.
-/

namespace StackTemplate

/-- A choice between two values. -/
structure Ternary where
  /-- The name of the condition. -/
  condition : String
  /-- The value if the condition holds. -/
  whenTrue : Value
  /-- The value if it does not. -/
  whenFalse : Value

namespace Ternary

/-- The key of a ternary. -/
def key : String := "Fn::If"

/-- The ternary that a value is. -/
def ofValue? : Value → Option Ternary
  | .object [("Fn::If", .array [.string condition, whenTrue, whenFalse])] =>
    some ⟨condition, whenTrue, whenFalse⟩
  | _ => none

/-- The branch that a truth value selects. -/
def branch (ternary : Ternary) : Bool → Value
  | true => ternary.whenTrue
  | false => ternary.whenFalse

end Ternary

/-- Where a ternary stands. -/
structure TernarySite where
  /-- The path from the inspected value to the ternary. -/
  path : Path
  /-- The ternary. -/
  ternary : Ternary
  /-- Whether it stands inside the call of another function. -/
  insideFunction : Bool

namespace Value

mutual

/-- All ternaries inside a value that stands at a path, an outer one before
those in its branches. -/
def ternarySitesAt (path : Path) (insideFunction : Bool) (value : Value) : List TernarySite :=
  let here := match Ternary.ofValue? value with
    | some ternary => [⟨path, ternary, insideFunction⟩]
    | none => []
  let inside := insideFunction || value.callsOther
  match value with
  | .array items => here ++ itemTernarySites path inside 0 items
  | .object entries => here ++ entryTernarySites path inside entries
  | _ => here

/-- All ternaries inside items, the first of which has the given position. -/
def itemTernarySites (path : Path) (insideFunction : Bool) (position : Nat) :
    List Value → List TernarySite
  | [] => []
  | item :: items =>
    ternarySitesAt (path ++ [.index position]) insideFunction item ++
      itemTernarySites path insideFunction (position + 1) items

/-- All ternaries inside entries. -/
def entryTernarySites (path : Path) (insideFunction : Bool) :
    List (String × Value) → List TernarySite
  | [] => []
  | (key, value) :: entries =>
    ternarySitesAt (path ++ [.key key]) insideFunction value ++
      entryTernarySites path insideFunction entries

end

/-- All ternaries inside a value. -/
def ternarySites (value : Value) : List TernarySite := value.ternarySitesAt [] false

end Value

end StackTemplate
