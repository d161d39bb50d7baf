/-!
# Formulas over atoms

Conditions are compiled to formulas over numbered atoms. Under an assignment
that leaves atoms open, a formula has a truth value only if the open atoms
cannot change it as far as its connectives show.
-/

namespace StackTemplate

/-- A Boolean formula over numbered atoms. -/
inductive Formula where
  /-- A truth value. -/
  | const (truth : Bool)
  /-- The truth value of an atom. -/
  | atom (number : Nat)
  /-- The opposite. -/
  | not (operand : Formula)
  /-- Whether all operands hold. -/
  | and (operands : List Formula)
  /-- Whether any operand holds. -/
  | or (operands : List Formula)
  deriving Inhabited

/-- Truth values of some atoms. -/
abbrev Assignment := Nat → Option Bool

namespace Assignment

/-- The assignment that leaves all atoms open. -/
def empty : Assignment := fun _ => none

/-- Gives an atom a truth value. -/
def set (assignment : Assignment) (number : Nat) (truth : Bool) : Assignment :=
  fun n => if n = number then some truth else assignment n

end Assignment

namespace Formula

mutual

/-- The truth value under an assignment, unless it depends on open atoms. -/
def eval (assignment : Assignment) : Formula → Option Bool
  | .const truth => some truth
  | .atom number => assignment number
  | .not operand => (eval assignment operand).map (!·)
  | .and operands => evalAll assignment operands
  | .or operands => evalAny assignment operands

/-- Whether all formulas hold: one that fails decides, open ones or not. -/
def evalAll (assignment : Assignment) : List Formula → Option Bool
  | [] => some true
  | operand :: operands =>
    match eval assignment operand with
    | some false => some false
    | some true => evalAll assignment operands
    | none =>
      match evalAll assignment operands with
      | some false => some false
      | _ => none

/-- Whether any formula holds: one that holds decides, open ones or not. -/
def evalAny (assignment : Assignment) : List Formula → Option Bool
  | [] => some false
  | operand :: operands =>
    match eval assignment operand with
    | some true => some true
    | some false => evalAny assignment operands
    | none =>
      match evalAny assignment operands with
      | some true => some true
      | _ => none

end

mutual

/-- The truth value when every atom has one. -/
def holds (truth : Nat → Bool) : Formula → Bool
  | .const value => value
  | .atom number => truth number
  | .not operand => !holds truth operand
  | .and operands => allHold truth operands
  | .or operands => anyHolds truth operands

/-- Whether all formulas hold. -/
def allHold (truth : Nat → Bool) : List Formula → Bool
  | [] => true
  | operand :: operands => holds truth operand && allHold truth operands

/-- Whether any formula holds. -/
def anyHolds (truth : Nat → Bool) : List Formula → Bool
  | [] => false
  | operand :: operands => holds truth operand || anyHolds truth operands

end

/-- Adds an atom to an ascending list of different atoms. -/
def addAtom (number : Nat) : List Nat → List Nat
  | [] => [number]
  | n :: ns =>
    if number < n then number :: n :: ns
    else if number = n then n :: ns
    else n :: addAtom number ns

mutual

/-- The given atoms and those of the formula, ascending. -/
def addAtoms (found : List Nat) : Formula → List Nat
  | .const _ => found
  | .atom number => addAtom number found
  | .not operand => addAtoms found operand
  | .and operands => addAllAtoms found operands
  | .or operands => addAllAtoms found operands

/-- The given atoms and those of the formulas, ascending. -/
def addAllAtoms (found : List Nat) : List Formula → List Nat
  | [] => found
  | operand :: operands => addAllAtoms (addAtoms found operand) operands

end

end Formula

end StackTemplate
