import Mathlib.Data.List.Basic
import StackTemplate.Condition.Formula

/-!
# Evaluation under open atoms

A truth value found while atoms are open is final: every assignment that knows
more finds it again, and it is the classical truth value under every way to
close the atoms that are left. Once all atoms of a formula are closed, it has
a truth value.
-/

namespace StackTemplate

/-- One assignment knows no more than another. -/
def Assignment.Below (smaller larger : Assignment) : Prop :=
  ∀ number truth, smaller number = some truth → larger number = some truth

/-- One assignment knows no more of the given atoms than another. -/
def Assignment.BelowOn (numbers : List Nat) (smaller larger : Assignment) : Prop :=
  ∀ number ∈ numbers, ∀ truth, smaller number = some truth → larger number = some truth

instance (numbers : List Nat) (smaller larger : Assignment) :
    Decidable (Assignment.BelowOn numbers smaller larger) :=
  inferInstanceAs (Decidable (∀ number ∈ numbers, ∀ truth,
    smaller number = some truth → larger number = some truth))

/-- The assignment that closes every atom. -/
def Assignment.total (truth : Nat → Bool) : Assignment := fun number => some (truth number)

namespace Assignment

/-- Nothing is known less than nothing. -/
theorem empty_below (assignment : Assignment) : empty.Below assignment := by
  intro number truth h
  cases h

/-- A total assignment has its truth value at every atom. -/
@[simp] theorem total_apply (truth : Nat → Bool) (number : Nat) :
    total truth number = some (truth number) := rfl

/-- The atom just closed has its truth value, the others keep theirs. -/
theorem set_apply (assignment : Assignment) (number : Nat) (truth : Bool) (other : Nat) :
    assignment.set number truth other =
      if other = number then some truth else assignment other := rfl

/-- Closing an atom as a total assignment does stays below it. -/
theorem Below.set {assignment : Assignment} {truth : Nat → Bool}
    (h : assignment.Below (total truth)) (number : Nat) :
    (assignment.set number (truth number)).Below (total truth) := by
  intro other value hv
  rw [set_apply] at hv
  split at hv
  · next he =>
    rw [total_apply, he]
    exact hv
  · exact h other value hv

end Assignment

namespace Formula

/-- Formulas are built from constants and atoms; a connective comes with what
is known of each operand. -/
@[induction_eliminator]
theorem operandInduction {motive : Formula → Prop}
    (const : ∀ truth, motive (.const truth))
    (atom : ∀ number, motive (.atom number))
    (not : ∀ operand, motive operand → motive (.not operand))
    (and : ∀ operands, (∀ operand ∈ operands, motive operand) → motive (.and operands))
    (or : ∀ operands, (∀ operand ∈ operands, motive operand) → motive (.or operands))
    (formula : Formula) : motive formula :=
  @Formula.rec motive (fun operands => ∀ operand ∈ operands, motive operand)
    const atom not and or
    (fun _ h => absurd h List.not_mem_nil)
    (fun _ _ hhead htail _ h => (List.mem_cons.mp h).elim (fun he => he ▸ hhead) (htail _))
    formula

section Connectives

variable {assignment : Assignment} {operands : List Formula}

/-- A conjunction fails as soon as one operand does. -/
theorem evalAll_eq_false_iff :
    evalAll assignment operands = some false ↔
      ∃ operand ∈ operands, eval assignment operand = some false := by
  induction operands with
  | nil => simp [evalAll]
  | cons operand operands ih =>
    simp only [evalAll, List.exists_mem_cons_iff, ← ih]
    cases eval assignment operand with
    | none => cases evalAll assignment operands with
      | none => simp
      | some truth => cases truth <;> simp
    | some truth => cases truth <;> simp

/-- A conjunction holds only if every operand does. -/
theorem evalAll_eq_true_iff :
    evalAll assignment operands = some true ↔
      ∀ operand ∈ operands, eval assignment operand = some true := by
  induction operands with
  | nil => simp [evalAll]
  | cons operand operands ih =>
    simp only [evalAll, List.forall_mem_cons, ← ih]
    cases eval assignment operand with
    | none => cases evalAll assignment operands with
      | none => simp
      | some truth => cases truth <;> simp
    | some truth => cases truth <;> simp

/-- Disjunctions and conjunctions are dual. -/
theorem evalAny_eq_not_evalAll_not (assignment : Assignment) (operands : List Formula) :
    evalAny assignment operands = (evalAll assignment (operands.map .not)).map (!·) := by
  induction operands with
  | nil => rfl
  | cons operand operands ih =>
    rw [evalAny, List.map_cons, evalAll, eval, ih]
    cases eval assignment operand with
    | none => cases evalAll assignment (operands.map .not) with
      | none => rfl
      | some truth => cases truth <;> rfl
    | some truth => cases truth <;> rfl

/-- A disjunction holds as soon as one operand does. -/
theorem evalAny_eq_true_iff :
    evalAny assignment operands = some true ↔
      ∃ operand ∈ operands, eval assignment operand = some true := by
  simp only [evalAny_eq_not_evalAll_not, Option.map_eq_some_iff, Bool.not_eq_true',
    exists_eq_right, evalAll_eq_false_iff, List.mem_map, exists_exists_and_eq_and, eval,
    Bool.not_eq_false']

/-- A disjunction fails only if every operand does. -/
theorem evalAny_eq_false_iff :
    evalAny assignment operands = some false ↔
      ∀ operand ∈ operands, eval assignment operand = some false := by
  simp only [evalAny_eq_not_evalAll_not, Option.map_eq_some_iff, Bool.not_eq_false',
    exists_eq_right, evalAll_eq_true_iff, List.forall_mem_map, eval, Bool.not_eq_true']

end Connectives

/-- The atoms of a formula, ascending. -/
def atoms (formula : Formula) : List Nat := addAtoms [] formula

/-- Adding an atom to a list adds nothing else. -/
theorem mem_addAtom {number other : Nat} {found : List Nat} :
    number ∈ addAtom other found ↔ number = other ∨ number ∈ found := by
  induction found with
  | nil => simp [addAtom]
  | cons head rest ih =>
    rw [addAtom]
    split
    · rw [List.mem_cons]
    · split
      · next he => simp [he]
      · rw [List.mem_cons, ih, List.mem_cons]
        exact or_left_comm

/-- Adding an atom keeps a list ascending. -/
theorem pairwise_addAtom {number : Nat} {found : List Nat} (h : found.Pairwise (· < ·)) :
    (addAtom number found).Pairwise (· < ·) := by
  induction found with
  | nil => exact List.pairwise_singleton _ _
  | cons head rest ih =>
    obtain ⟨hhead, hrest⟩ := List.pairwise_cons.mp h
    rw [addAtom]
    split
    · next hlt =>
      refine List.pairwise_cons.mpr ⟨fun other hother => ?_, h⟩
      rcases List.mem_cons.mp hother with rfl | hmem
      · exact hlt
      · exact Nat.lt_trans hlt (hhead other hmem)
    · split
      · exact h
      · refine List.pairwise_cons.mpr ⟨fun other hother => ?_, ih hrest⟩
        rcases mem_addAtom.mp hother with rfl | hmem
        · omega
        · exact hhead other hmem

/-- Adding the atoms of a formula keeps a list ascending. -/
theorem pairwise_addAtoms (formula : Formula) {found : List Nat} (h : found.Pairwise (· < ·)) :
    (addAtoms found formula).Pairwise (· < ·) := by
  have hall : ∀ operands : List Formula, (∀ operand ∈ operands, ∀ found : List Nat,
      found.Pairwise (· < ·) → (addAtoms found operand).Pairwise (· < ·)) →
      ∀ found : List Nat, found.Pairwise (· < ·) →
        (addAllAtoms found operands).Pairwise (· < ·) := by
    intro operands hoperands
    induction operands with
    | nil => exact fun _ h => h
    | cons operand operands ih =>
      obtain ⟨hhead, htail⟩ := List.forall_mem_cons.mp hoperands
      exact fun found h => ih htail _ (hhead found h)
  induction formula generalizing found with
  | const truth => exact h
  | atom number => exact pairwise_addAtom h
  | not operand ih => exact ih h
  | and operands ih => exact hall operands (fun operand hmem _ => ih operand hmem) found h
  | or operands ih => exact hall operands (fun operand hmem _ => ih operand hmem) found h

/-- The atoms of several formulas are those of each, whatever was found before. -/
theorem mem_addAllAtoms_of {number : Nat} {operands : List Formula}
    (h : ∀ operand ∈ operands, ∀ found,
      number ∈ addAtoms found operand ↔ number ∈ found ∨ number ∈ operand.atoms)
    (found : List Nat) :
    number ∈ addAllAtoms found operands ↔
      number ∈ found ∨ ∃ operand ∈ operands, number ∈ operand.atoms := by
  induction operands generalizing found with
  | nil => simp [addAllAtoms]
  | cons operand operands ih =>
    have hhead := h operand List.mem_cons_self found
    have htail := ih (fun other hmem => h other (List.mem_cons_of_mem _ hmem))
      (addAtoms found operand)
    rw [addAllAtoms, htail, hhead, List.exists_mem_cons_iff, or_assoc]

/-- The atoms of a formula are found whatever was found before. -/
theorem mem_addAtoms {number : Nat} (formula : Formula) (found : List Nat) :
    number ∈ addAtoms found formula ↔ number ∈ found ∨ number ∈ formula.atoms := by
  induction formula generalizing found with
  | const truth => simp [atoms, addAtoms]
  | atom other => simp [atoms, addAtoms, mem_addAtom, or_comm]
  | not operand ih => exact ih found
  | and operands ih =>
    have hempty := mem_addAllAtoms_of ih []
    rw [atoms, addAtoms, addAtoms, mem_addAllAtoms_of ih found, hempty]
    simp
  | or operands ih =>
    have hempty := mem_addAllAtoms_of ih []
    rw [atoms, addAtoms, addAtoms, mem_addAllAtoms_of ih found, hempty]
    simp

/-- The atoms of several formulas are those of each. -/
theorem mem_addAllAtoms {number : Nat} (operands : List Formula) (found : List Nat) :
    number ∈ addAllAtoms found operands ↔
      number ∈ found ∨ ∃ operand ∈ operands, number ∈ operand.atoms :=
  mem_addAllAtoms_of (fun operand _ => mem_addAtoms operand) found

section Atoms

variable {number : Nat}

@[simp] theorem mem_atoms_const {truth : Bool} : ¬number ∈ (const truth).atoms := List.not_mem_nil

@[simp] theorem mem_atoms_atom {other : Nat} : number ∈ (atom other).atoms ↔ number = other := by
  simp [atoms, addAtoms, addAtom]

@[simp] theorem atoms_not (operand : Formula) : (not operand).atoms = operand.atoms := rfl

@[simp] theorem mem_atoms_and {operands : List Formula} :
    number ∈ (and operands).atoms ↔ ∃ operand ∈ operands, number ∈ operand.atoms := by
  simp [atoms, addAtoms, mem_addAllAtoms]

@[simp] theorem mem_atoms_or {operands : List Formula} :
    number ∈ (or operands).atoms ↔ ∃ operand ∈ operands, number ∈ operand.atoms := by
  simp [atoms, addAtoms, mem_addAllAtoms]

end Atoms

/-- An assignment that knows more of the atoms of a formula finds its truth value
again. -/
theorem eval_mono_of_atoms {smaller larger : Assignment} {formula : Formula}
    (hbelow : Assignment.BelowOn formula.atoms smaller larger) {truth : Bool}
    (h : eval smaller formula = some truth) : eval larger formula = some truth := by
  induction formula generalizing truth with
  | const value => exact h
  | atom number => exact hbelow number (mem_atoms_atom.mpr rfl) truth h
  | not operand ih =>
    obtain ⟨value, hvalue, hnot⟩ := Option.map_eq_some_iff.mp h
    simp only [eval, ih hbelow hvalue, Option.map_some, hnot]
  | and operands ih =>
    have hoperand : ∀ operand ∈ operands, Assignment.BelowOn operand.atoms smaller larger :=
      fun operand hmem number hnumber => hbelow number (mem_atoms_and.mpr ⟨operand, hmem, hnumber⟩)
    cases truth with
    | false =>
      obtain ⟨operand, hmem, hfails⟩ := evalAll_eq_false_iff.mp h
      exact evalAll_eq_false_iff.mpr ⟨operand, hmem, ih operand hmem (hoperand operand hmem) hfails⟩
    | true =>
      have hall := evalAll_eq_true_iff.mp h
      exact evalAll_eq_true_iff.mpr fun operand hmem =>
        ih operand hmem (hoperand operand hmem) (hall operand hmem)
  | or operands ih =>
    have hoperand : ∀ operand ∈ operands, Assignment.BelowOn operand.atoms smaller larger :=
      fun operand hmem number hnumber => hbelow number (mem_atoms_or.mpr ⟨operand, hmem, hnumber⟩)
    cases truth with
    | true =>
      obtain ⟨operand, hmem, hholds⟩ := evalAny_eq_true_iff.mp h
      exact evalAny_eq_true_iff.mpr ⟨operand, hmem, ih operand hmem (hoperand operand hmem) hholds⟩
    | false =>
      have hall := evalAny_eq_false_iff.mp h
      exact evalAny_eq_false_iff.mpr fun operand hmem =>
        ih operand hmem (hoperand operand hmem) (hall operand hmem)

/-- A conjunction of closed formulas holds if all of them do. -/
theorem allHold_eq_all (truth : Nat → Bool) (operands : List Formula) :
    allHold truth operands = operands.all (holds truth) := by
  induction operands with
  | nil => rfl
  | cons operand operands ih => rw [allHold, List.all_cons, ih]

/-- A disjunction of closed formulas holds if one of them does. -/
theorem anyHolds_eq_any (truth : Nat → Bool) (operands : List Formula) :
    anyHolds truth operands = operands.any (holds truth) := by
  induction operands with
  | nil => rfl
  | cons operand operands ih => rw [anyHolds, List.any_cons, ih]

/-- Under a total assignment evaluation gives the classical truth value. -/
theorem eval_total (truth : Nat → Bool) (formula : Formula) :
    eval (Assignment.total truth) formula = some (holds truth formula) := by
  induction formula with
  | const value => rfl
  | atom number => rfl
  | not operand ih => simp only [eval, holds, ih, Option.map_some]
  | and operands ih =>
    rw [eval, holds, allHold_eq_all]
    cases hall : operands.all (holds truth) with
    | true =>
      refine evalAll_eq_true_iff.mpr fun operand hmem => ?_
      rw [ih operand hmem, List.all_eq_true.mp hall operand hmem]
    | false =>
      obtain ⟨operand, hmem, hfails⟩ := List.all_eq_false.mp hall
      refine evalAll_eq_false_iff.mpr ⟨operand, hmem, ?_⟩
      rw [ih operand hmem, Bool.eq_false_iff.mpr hfails]
  | or operands ih =>
    rw [eval, holds, anyHolds_eq_any]
    cases hany : operands.any (holds truth) with
    | true =>
      obtain ⟨operand, hmem, hholds⟩ := List.any_eq_true.mp hany
      refine evalAny_eq_true_iff.mpr ⟨operand, hmem, ?_⟩
      rw [ih operand hmem, hholds]
    | false =>
      refine evalAny_eq_false_iff.mpr fun operand hmem => ?_
      rw [ih operand hmem, Bool.eq_false_iff.mpr (List.any_eq_false.mp hany operand hmem)]

/-- A truth value found while atoms are open is the classical one under every way
to close the atoms of the formula. -/
theorem holds_of_eval_of_atoms {assignment : Assignment} {truth : Nat → Bool} {formula : Formula}
    (hbelow : Assignment.BelowOn formula.atoms assignment (.total truth)) {value : Bool}
    (h : eval assignment formula = some value) : holds truth formula = value := by
  have htotal := eval_mono_of_atoms hbelow h
  rw [eval_total] at htotal
  exact Option.some.inj htotal

/-- A truth value found while atoms are open is the classical one under every
way to close them. -/
theorem holds_of_eval {assignment : Assignment} {truth : Nat → Bool}
    (hbelow : assignment.Below (Assignment.total truth)) {formula : Formula} {value : Bool}
    (h : eval assignment formula = some value) : holds truth formula = value :=
  holds_of_eval_of_atoms (fun number _ => hbelow number) h

/-- A formula all of whose atoms are closed has a truth value. -/
theorem eval_isSome_of_atoms {assignment : Assignment} (formula : Formula)
    (h : ∀ number ∈ formula.atoms, (assignment number).isSome) :
    (eval assignment formula).isSome := by
  induction formula with
  | const truth => rfl
  | atom number => exact h number (mem_atoms_atom.mpr rfl)
  | not operand ih =>
    rw [eval, Option.isSome_map]
    exact ih h
  | and operands ih =>
    have hclosed : ∀ operand ∈ operands, (eval assignment operand).isSome :=
      fun operand hmem => ih operand hmem fun number hnumber =>
        h number (mem_atoms_and.mpr ⟨operand, hmem, hnumber⟩)
    by_cases hfails : ∃ operand ∈ operands, eval assignment operand = some false
    · rw [eval, evalAll_eq_false_iff.mpr hfails]
      rfl
    · have hall : ∀ operand ∈ operands, eval assignment operand = some true := by
        intro operand hmem
        obtain ⟨truth, htruth⟩ := Option.isSome_iff_exists.mp (hclosed operand hmem)
        cases truth with
        | true => exact htruth
        | false => exact absurd ⟨operand, hmem, htruth⟩ hfails
      rw [eval, evalAll_eq_true_iff.mpr hall]
      rfl
  | or operands ih =>
    have hclosed : ∀ operand ∈ operands, (eval assignment operand).isSome :=
      fun operand hmem => ih operand hmem fun number hnumber =>
        h number (mem_atoms_or.mpr ⟨operand, hmem, hnumber⟩)
    by_cases hholds : ∃ operand ∈ operands, eval assignment operand = some true
    · rw [eval, evalAny_eq_true_iff.mpr hholds]
      rfl
    · have hall : ∀ operand ∈ operands, eval assignment operand = some false := by
        intro operand hmem
        obtain ⟨truth, htruth⟩ := Option.isSome_iff_exists.mp (hclosed operand hmem)
        cases truth with
        | false => exact htruth
        | true => exact absurd ⟨operand, hmem, htruth⟩ hholds
      rw [eval, evalAny_eq_false_iff.mpr hall]
      rfl

/-- The classical truth value depends only on the atoms of the formula. -/
theorem holds_congr {first second : Nat → Bool} {formula : Formula}
    (h : ∀ number ∈ formula.atoms, first number = second number) :
    holds first formula = holds second formula := by
  have hbelow : Assignment.BelowOn formula.atoms (.total second) (.total first) := by
    intro number hmem truth htruth
    rw [Assignment.total_apply, h number hmem]
    exact htruth
  exact holds_of_eval_of_atoms hbelow (eval_total second formula)

/-- A truth value found while atoms are open is final. Every assignment that agrees
on the atoms already closed finds it again, and it is the classical truth value
under every way to close the others; atoms that the formula does not have play no
part. And if all its atoms are closed, a formula has a truth value. -/
theorem eval_final (formula : Formula) (assignment : Assignment) :
    (∀ truth, eval assignment formula = some truth →
      (∀ larger, Assignment.BelowOn formula.atoms assignment larger →
        eval larger formula = some truth) ∧
      ∀ closed : Nat → Bool, Assignment.BelowOn formula.atoms assignment (.total closed) →
        holds closed formula = truth) ∧
    ((∀ number ∈ formula.atoms, (assignment number).isSome) → eval assignment formula ≠ none) := by
  refine ⟨fun truth htruth => ⟨fun larger hbelow => ?_, fun closed hbelow => ?_⟩, fun hclosed => ?_⟩
  · exact eval_mono_of_atoms hbelow htruth
  · exact holds_of_eval_of_atoms hbelow htruth
  · exact Option.isSome_iff_ne_none.mp (eval_isSome_of_atoms formula hclosed)

/-- A disjunction whose first operand stays open. -/
def halfOpen : Formula := .or [.and [.atom 0, .atom 1], .not (.and [.atom 2, .atom 3])]

theorem eval_final_halfOpen :
    eval (Assignment.empty.set 3 false) halfOpen = some true ∧
    eval ((Assignment.empty.set 3 false).set 0 false) halfOpen = some true ∧
    holds (fun number => number == 2) halfOpen = true ∧
    eval (.total fun number => number == 2) halfOpen ≠ none := by
  have heval : eval (Assignment.empty.set 3 false) halfOpen = some true := rfl
  obtain ⟨hagain, hclassical⟩ := (eval_final halfOpen _).1 true heval
  exact ⟨heval, hagain _ (by decide), hclassical _ (by decide),
    (eval_final halfOpen _).2 fun _ _ => rfl⟩

end Formula

end StackTemplate
