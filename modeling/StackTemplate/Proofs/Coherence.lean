import StackTemplate.Proofs.Cycles

/-!
# Coherent truth values

The search looks at no more of an assignment than it needs: it accepts while
atoms are still open, and it compares parameters with their allowed values only
as far as the atoms go that it was given. What it decides can be said without
any of this. Formulas can have the wanted truth values together if and only if
they have them, classically, under truth values of the atoms that occur in them
which do not contradict each other.
-/

namespace StackTemplate

namespace Formula

/-- An atom occurs in a formula. -/
inductive Mentions (number : Nat) : Formula → Prop where
  /-- An atom occurs in itself. -/
  | atom : Mentions number (.atom number)
  /-- What occurs in the operand occurs in its opposite. -/
  | not {operand : Formula} (h : Mentions number operand) : Mentions number (.not operand)
  /-- What occurs in an operand occurs in a conjunction. -/
  | and {operand : Formula} {operands : List Formula} (hmem : operand ∈ operands)
      (h : Mentions number operand) : Mentions number (.and operands)
  /-- What occurs in an operand occurs in a disjunction. -/
  | or {operand : Formula} {operands : List Formula} (hmem : operand ∈ operands)
      (h : Mentions number operand) : Mentions number (.or operands)

/-- The atoms of a formula are those that occur in it. -/
theorem mem_atoms_iff_mentions {number : Nat} {formula : Formula} :
    number ∈ formula.atoms ↔ formula.Mentions number := by
  constructor
  · intro h
    induction formula with
    | const truth => exact absurd h mem_atoms_const
    | atom other =>
      rw [mem_atoms_atom.mp h]
      exact .atom
    | not operand ih => exact .not (ih h)
    | and operands ih =>
      obtain ⟨operand, hmem, hnumber⟩ := mem_atoms_and.mp h
      exact .and hmem (ih operand hmem hnumber)
    | or operands ih =>
      obtain ⟨operand, hmem, hnumber⟩ := mem_atoms_or.mp h
      exact .or hmem (ih operand hmem hnumber)
  · intro h
    induction h with
    | atom => exact mem_atoms_atom.mpr rfl
    | not _ ih => exact ih
    | and hmem _ ih => exact mem_atoms_and.mpr ⟨_, hmem, ih⟩
    | or hmem _ ih => exact mem_atoms_or.mpr ⟨_, hmem, ih⟩

end Formula

namespace Solver

variable {index : ConditionIndex} {region : Option String} {solver : Solver}

/-- The tables that compiling conditions one after the other leads to. -/
inductive Reached (index : ConditionIndex) (region : Option String) : Solver → Prop where
  /-- At first the tables are empty. -/
  | start : Reached index region {}
  /-- Any condition may be compiled next. -/
  | compile {solver later : Solver} {name : String} {formula : Formula}
      (h : Reached index region solver)
      (hcompile : compile index region name solver = .ok (formula, later)) :
      Reached index region later

/-- Only acyclic names have been compiled. -/
theorem Reached.vetted (h : Reached index region solver) : Vetted index solver := by
  induction h with
  | start => exact .empty
  | compile _ hcompile ih => exact (vets_compile _ _ _ ih hcompile).1

/-- The tables are those of a compilation, whatever was compiled. -/
theorem Reached.sound (h : Reached index region solver) :
    Sound index region (fun _ => True) solver := by
  induction h with
  | start => exact .empty
  | @compile solver later name formula hbefore hcompile ih =>
    have hacyclic : index.Acyclic name :=
      (vets_compile solver formula later hbefore.vetted hcompile).2 name rfl
    obtain ⟨_, _, hyields, hlater, -⟩ := yields_compile (.root trivial) hacyclic solver ih
    rw [hcompile] at hyields
    cases hyields
    exact hlater

/-- An atom occurs in formulas of which something is wanted. -/
def Occurs (goals : List (Formula × Bool)) (number : Nat) : Prop :=
  ∃ goal ∈ goals, goal.1.Mentions number

/-- The search runs over the atoms that occur. -/
theorem mem_relevantAtoms_eq_occurs (goals : List (Formula × Bool)) :
    (· ∈ relevantAtoms goals) = Occurs goals := by
  funext number
  refine propext (mem_relevantAtoms.trans ?_)
  simp only [Occurs, Formula.mem_atoms_iff_mentions]

/-- The search decides exactly whether formulas can have the wanted truth values
together: if and only if they have them under truth values of the atoms that
occur which make no parameter equal two texts and, where all allowed values of
a parameter are compared, make it equal one of them. -/
theorem satisfiable_iff_coherent (index : ConditionIndex) (region : Option String)
    (solver : Solver) (hreached : Reached index region solver)
    (goals : List (Formula × Bool)) :
    solver.satisfiable index goals = true ↔
      ∃ truth : Nat → Bool, Coherent index solver (Occurs goals) truth ∧
        ∀ goal ∈ goals, goal.1.holds truth = goal.2 := by
  rw [← mem_relevantAtoms_eq_occurs]
  constructor
  · intro h
    obtain ⟨values, truth, hmodel, hgoals⟩ := exists_model_of_satisfiable hreached.sound h
    exact ⟨truth, hmodel.coherent hreached.sound, hgoals⟩
  · rintro ⟨truth, hcoherent, hgoals⟩
    exact satisfiable_of_coherent hreached.sound hcoherent hgoals

/-- A condition that asks for either of two stages, where there are no others. -/
def stageIndex : ConditionIndex where
  conditions := [("IsStage", .or [.equals (.ref "Stage") (.literal "prod"),
    .equals (.literal "dev") (.ref "Stage")])]
  allowedValues := [("Stage", ["prod", "dev"])]
  maxScenarios := 16

/-- The two comparisons of the condition. -/
def stageAtoms : List Atom :=
  [⟨"equals:Stage=prod", some ("Stage", "prod")⟩, ⟨"equals:Stage=dev", some ("Stage", "dev")⟩]

theorem satisfiable_iff_coherent_stage :
    ∃ solver, Reached stageIndex none solver ∧ solver.atoms = stageAtoms ∧
      (∃ truth : Nat → Bool,
        Coherent stageIndex solver (Occurs [(.atom 0, false), (.atom 1, true)]) truth ∧
          truth 0 = false ∧ truth 1 = true) ∧
      ∀ truth : Nat → Bool, truth 0 = false → truth 1 = false →
        ¬Coherent stageIndex solver (Occurs [(.atom 0, false), (.atom 1, false)]) truth := by
  have hatoms : (compile stageIndex none "IsStage" {}).map (fun found => found.2.atoms) =
      .ok stageAtoms := by decide +kernel
  cases hcompile : compile stageIndex none "IsStage" {} with
  | error error =>
    rw [hcompile] at hatoms
    cases hatoms
  | ok found =>
    obtain ⟨formula, solver⟩ := found
    rw [hcompile] at hatoms
    have htable : solver.atoms = stageAtoms := Except.ok.inj hatoms
    have hreached : Reached stageIndex none solver := .compile .start hcompile
    have hexact := satisfiable_iff_coherent stageIndex none solver hreached
    have hsearch : ∀ goals, solver.satisfiable stageIndex goals =
        satisfiable stageIndex { atoms := stageAtoms } goals := by
      intro goals
      rw [← htable]
      rfl
    refine ⟨solver, hreached, htable, ?_, ?_⟩
    · have haccepted :
          solver.satisfiable stageIndex [(.atom 0, false), (.atom 1, true)] = true := by
        rw [hsearch]
        decide
      obtain ⟨truth, hcoherent, hgoals⟩ := (hexact _).mp haccepted
      exact ⟨truth, hcoherent, hgoals (.atom 0, false) (by simp), hgoals (.atom 1, true) (by simp)⟩
    · intro truth hprod hdev hcoherent
      have haccepted := (hexact [(.atom 0, false), (.atom 1, false)]).mpr
        ⟨truth, hcoherent, by simp [Formula.holds, hprod, hdev]⟩
      rw [hsearch] at haccepted
      revert haccepted
      decide

end Solver

end StackTemplate
