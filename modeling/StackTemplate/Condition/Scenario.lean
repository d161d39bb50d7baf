import StackTemplate.Entries

/-!
# Scenarios

A scenario gives truth values to condition names. Constraints restrict the
truth values that names may take, without tying one name to another.
-/

namespace StackTemplate

/-- Truth values of condition names, in the order in which they were given. -/
structure Scenario where
  /-- The truth value of every name. -/
  truths : List (String × Bool) := []
  deriving DecidableEq, Repr

namespace Scenario

/-- The scenario of pairs given one after the other: a repeated name keeps its
first position and its last value. -/
def ofPairs (pairs : List (String × Bool)) : Scenario := ⟨Entries.ofPairs pairs⟩

/-- The truth value of a name. -/
def get? (scenario : Scenario) (name : String) : Option Bool :=
  Entries.get? name scenario.truths

/-- Sets the truth value of a name. -/
def insert (scenario : Scenario) (name : String) (truth : Bool) : Scenario :=
  ⟨Entries.insert name truth scenario.truths⟩

/-- The number of names. -/
def size (scenario : Scenario) : Nat := scenario.truths.length

/-- Whether no name has a truth value. -/
def isEmpty (scenario : Scenario) : Bool := scenario.truths.isEmpty

end Scenario

/-- A set of truth values. -/
structure TruthSet where
  /-- Whether false belongs to it. -/
  allowsFalse : Bool
  /-- Whether true belongs to it. -/
  allowsTrue : Bool
  deriving DecidableEq, Repr

namespace TruthSet

/-- No truth value. -/
def none : TruthSet := ⟨false, false⟩

/-- Both truth values. -/
def both : TruthSet := ⟨true, true⟩

/-- One truth value. -/
def only (truth : Bool) : TruthSet := ⟨!truth, truth⟩

/-- The set of the given truth values. -/
def ofList (truths : List Bool) : TruthSet := ⟨truths.contains false, truths.contains true⟩

/-- Whether a truth value belongs to the set. -/
def contains (set : TruthSet) : Bool → Bool
  | true => set.allowsTrue
  | false => set.allowsFalse

/-- The truth values of either set. -/
def union (a b : TruthSet) : TruthSet :=
  ⟨a.allowsFalse || b.allowsFalse, a.allowsTrue || b.allowsTrue⟩

/-- The truth values of the set, true before false. -/
def descending (set : TruthSet) : List Bool := [true, false].filter set.contains

/-- The truth values of the set, false before true. -/
def ascending (set : TruthSet) : List Bool := [false, true].filter set.contains

/-- The only truth value of the set. -/
def single? (set : TruthSet) : Option Bool :=
  match set.ascending with
  | [truth] => some truth
  | _ => Option.none

end TruthSet

/-- The truth values that condition names may take. -/
abbrev Constraints := List (String × TruthSet)

namespace Constraints

/-- Allows a name more truth values. -/
def extend (constraints : Constraints) (name : String) (truths : TruthSet) : Constraints :=
  Entries.insert name (((Entries.get? name constraints).getD .none).union truths) constraints

/-- Allows a name that is not restricted yet both truth values. -/
def leaveOpen (constraints : Constraints) (name : String) : Constraints :=
  if Entries.contains name constraints then constraints
  else Entries.insert name .both constraints

end Constraints

end StackTemplate
