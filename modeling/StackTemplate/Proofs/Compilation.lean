import StackTemplate.Proofs.CompilationSteps
import StackTemplate.Proofs.Evaluation

/-!
# Compilation of conditions

Compiling an acyclic condition always succeeds, and the formula says what the
condition says. Atoms are known by their keys: whatever truth values are given
to keys, the formula has the truth value of the condition when comparisons,
unknown expressions and undefined names are read through these keys. The table
of atoms only grows, so formulas keep their meaning while others are compiled.
-/

namespace StackTemplate

/-- The interpretation in which every leaf has the truth value of its key. -/
def Interpretation.ofKeys (index : ConditionIndex) (region : Option String)
    (keys : String → Bool) : Interpretation where
  equal left right := (Reading.ofOperands index region left right).truth keys
  unknown digest := keys (Subject.unknown digest).key
  undefined name := keys (Subject.undefined name).key

/-- A comparison has the truth value that it comes to. -/
theorem Interpretation.holds_equals_ofKeys {index : ConditionIndex} {region : Option String}
    {keys : String → Bool} {named : String → Bool} {left right : Operand} {reading : Reading}
    (h : Reading.ofOperands index region left right = reading) :
    (ConditionExpr.equals left right).holds (.ofKeys index region keys) named =
      reading.truth keys :=
  congrArg (Reading.truth keys) h

namespace Solver

/-- The truth values of atoms when keys have truth values. -/
def valuation (solver : Solver) (keys : String → Bool) (number : Nat) : Bool :=
  match solver.atoms[number]? with
  | some atom => keys atom.key
  | none => false

/-- A formula over the atoms met so far has a truth value that depends on the
truth values of keys. -/
structure Denotes (solver : Solver) (formula : Formula) (value : (String → Bool) → Bool) :
    Prop where
  /-- Its atoms are in the table. -/
  bounded : ∀ number ∈ formula.atoms, number < solver.atoms.length
  /-- It has the truth value. -/
  holds : ∀ keys, formula.holds (solver.valuation keys) = value keys

/-- More atoms leave the truth values of those before them alone. -/
theorem valuation_of_isPrefix {solver later : Solver} (hgrow : solver.atoms <+: later.atoms)
    (keys : String → Bool) {number : Nat} (h : number < solver.atoms.length) :
    later.valuation keys number = solver.valuation keys number := by
  obtain ⟨added, hadded⟩ := hgrow
  unfold valuation
  rw [← hadded, List.getElem?_append_left h]

/-- Formulas keep their meaning while the table of atoms grows. -/
theorem Denotes.grow {solver later : Solver} {formula : Formula}
    {value : (String → Bool) → Bool} (h : solver.Denotes formula value)
    (hgrow : solver.atoms <+: later.atoms) : later.Denotes formula value where
  bounded number hnumber := Nat.lt_of_lt_of_le (h.bounded number hnumber) hgrow.length_le
  holds keys := by
    rw [← h.holds keys]
    refine Formula.holds_congr fun number hnumber => ?_
    exact valuation_of_isPrefix hgrow keys (h.bounded number hnumber)

/-- A truth value denotes itself. -/
theorem Denotes.const (solver : Solver) (truth : Bool) :
    solver.Denotes (.const truth) fun _ => truth where
  bounded _ h := absurd h Formula.mem_atoms_const
  holds _ := rfl

/-- The opposite denotes the opposite. -/
theorem Denotes.not {solver : Solver} {formula : Formula} {value : (String → Bool) → Bool}
    (h : solver.Denotes formula value) : solver.Denotes (.not formula) fun keys => !value keys where
  bounded := h.bounded
  holds keys := by rw [Formula.holds, h.holds keys]

/-- An atom of the table denotes its key. -/
theorem Denotes.atom {solver : Solver} {number : Nat} {atom : Atom}
    (h : solver.atoms[number]? = some atom) :
    solver.Denotes (.atom number) fun keys => keys atom.key where
  bounded other hother := by
    rw [Formula.mem_atoms_atom.mp hother]
    exact (List.getElem?_eq_some_iff.mp h).1
  holds keys := by rw [Formula.holds, valuation, h]

end Solver

/-- What atoms can be about when the given names are compiled. -/
inductive ConditionIndex.Arises (index : ConditionIndex) (region : Option String)
    (roots : String → Prop) : Subject → Prop where
  /-- A comparison that the names lead to and that nothing decides. -/
  | operands {left right : Operand} {subject : Subject} (hcompares : index.Compares roots left right)
      (hfree : Reading.ofOperands index region left right = .free subject) :
      Arises index region roots subject
  /-- Any expression that is not understood. -/
  | unknown (digest : String) : Arises index region roots (.unknown digest)
  /-- Any name that is not defined. -/
  | undefined (name : String) : Arises index region roots (.undefined name)

namespace Solver

variable {index : ConditionIndex} {region : Option String} {roots : String → Prop}

/-- The tables of a compilation of the given names: no two atoms have the same
key, every atom is about something that arises, and every formula that was
noted says what its condition says. -/
structure Sound (index : ConditionIndex) (region : Option String) (roots : String → Prop)
    (solver : Solver) : Prop where
  /-- Different atoms have different keys. -/
  nodup : (solver.atoms.map Atom.key).Nodup
  /-- Atoms are about what arises. -/
  arises : ∀ atom ∈ solver.atoms, ∃ subject, index.Arises region roots subject ∧
    atom = subject.atom
  /-- Formulas that were noted are right. -/
  compiled : ∀ name formula, Entries.get? name solver.compiled = some formula →
    solver.Denotes formula fun keys => index.truth (.ofKeys index region keys) name

/-- Empty tables are sound. -/
theorem Sound.empty : Sound index region roots {} where
  nodup := List.nodup_nil
  arises _ h := absurd h List.not_mem_nil
  compiled _ _ h := nomatch h

/-- An atom for something that arises keeps the tables sound and denotes its key. -/
theorem Sound.atomNumber {solver later : Solver} (hsound : Sound index region roots solver)
    {subject : Subject} (harises : index.Arises region roots subject) {number : Nat}
    (h : solver.atomNumber subject.key subject.compared? = (number, later)) :
    Sound index region roots later ∧
      later.Denotes (.atom number) fun keys => keys subject.key := by
  have hgrows := grows_atomNumber h
  rcases solver.atomNumber_cases subject.key subject.compared? with
    ⟨_, atom, hatom, hkey, hfound⟩ | ⟨-, hadded⟩
  · cases h.symm.trans hfound
    exact ⟨hsound, hkey ▸ Denotes.atom hatom⟩
  · cases h.symm.trans hadded
    refine ⟨⟨hgrows.nodup hsound.nodup, fun atom hmem => ?_, fun name formula hget =>
      (hsound.compiled name formula hget).grow hgrows.atoms⟩, ?_⟩
    · rcases List.mem_append.mp hmem with hmem | hmem
      · exact hsound.arises atom hmem
      · exact ⟨subject, harises, List.mem_singleton.mp hmem⟩
    · exact @Denotes.atom _ _ subject.atom List.getElem?_concat_length

/-- Noting the formula of a condition keeps the tables sound. -/
theorem Sound.noting {solver : Solver} {name : String} {formula : Formula}
    (hsound : Sound index region roots solver)
    (hdenotes : solver.Denotes formula fun keys => index.truth (.ofKeys index region keys) name) :
    Sound index region roots (solver.noting name formula) where
  nodup := hsound.nodup
  arises := hsound.arises
  compiled other noted hnoted := by
    rw [Solver.noting, Entries.get?] at hnoted
    split at hnoted
    · next he =>
      cases hnoted
      exact he ▸ ⟨hdenotes.bounded, hdenotes.holds⟩
    · have hold := hsound.compiled other noted hnoted
      exact ⟨hold.bounded, hold.holds⟩

/-- Every result belongs to something it was made for. -/
theorem exists_of_forall₂ {α β : Type} {right : α → β → Prop} {elements : List α}
    {results : List β} (h : List.Forall₂ right elements results) {result : β}
    (hresult : result ∈ results) : ∃ element ∈ elements, right element result := by
  induction h with
  | nil => exact absurd hresult List.not_mem_nil
  | @cons element first elements results hhere _ ih =>
    rcases List.mem_cons.mp hresult with rfl | hlater
    · exact ⟨element, List.mem_cons_self, hhere⟩
    · obtain ⟨other, hother, hothers⟩ := ih hlater
      exact ⟨other, List.mem_cons_of_mem _ hother, hothers⟩

section Connectives

variable {solver : Solver} {formulas : List Formula} {operands : List ConditionExpr}
  {meaning : (String → Bool) → Interpretation} {named : (String → Bool) → String → Bool}

/-- The atoms of formulas that denote expressions are in the table. -/
theorem bounded_of_forall₂
    (h : List.Forall₂ (fun operand formula => solver.Denotes formula fun keys =>
      operand.holds (meaning keys) (named keys)) operands formulas) {number : Nat}
    (hnumber : ∃ formula ∈ formulas, number ∈ formula.atoms) : number < solver.atoms.length := by
  obtain ⟨formula, hmem, hnumber⟩ := hnumber
  obtain ⟨operand, -, hdenotes⟩ := exists_of_forall₂ h hmem
  exact hdenotes.bounded number hnumber

/-- A conjunction denotes the conjunction of what its operands denote. -/
theorem Denotes.and
    (h : List.Forall₂ (fun operand formula => solver.Denotes formula fun keys =>
      operand.holds (meaning keys) (named keys)) operands formulas) :
    solver.Denotes (.and formulas) fun keys =>
      ConditionExpr.allHold (meaning keys) (named keys) operands where
  bounded _ hnumber := bounded_of_forall₂ h (Formula.mem_atoms_and.mp hnumber)
  holds keys := by
    rw [Formula.holds]
    induction h with
    | nil => rfl
    | cons hhead _ ih => rw [Formula.allHold, ConditionExpr.allHold, hhead.holds keys, ih]

/-- A disjunction denotes the disjunction of what its operands denote. -/
theorem Denotes.or
    (h : List.Forall₂ (fun operand formula => solver.Denotes formula fun keys =>
      operand.holds (meaning keys) (named keys)) operands formulas) :
    solver.Denotes (.or formulas) fun keys =>
      ConditionExpr.anyHolds (meaning keys) (named keys) operands where
  bounded _ hnumber := bounded_of_forall₂ h (Formula.mem_atoms_or.mp hnumber)
  holds keys := by
    rw [Formula.holds]
    induction h with
    | nil => rfl
    | cons hhead _ ih => rw [Formula.anyHolds, ConditionExpr.anyHolds, hhead.holds keys, ih]

end Connectives

/-- Formulas say what expressions say. -/
abbrev AllDenote (index : ConditionIndex) (region : Option String) (solver : Solver) :
    List ConditionExpr → List Formula → Prop :=
  List.Forall₂ fun expr formula => solver.Denotes formula fun keys =>
    expr.holds (.ofKeys index region keys) (index.truth (.ofKeys index region keys))

/-- Compiling expressions keeps the tables sound, and the formulas say what the
expressions say, if the names that they refer to are acyclic. -/
theorem Compiles.sound {exprs : List ConditionExpr} {formulas : List Formula}
    {solver later : Solver} (h : Compiles index region exprs solver formulas later)
    (hcompares : ∀ expr ∈ exprs, ∀ pair ∈ expr.comparisons, index.Compares roots pair.1 pair.2)
    (hnames : ∀ expr ∈ exprs, ∀ name ∈ expr.references,
      index.LedFrom roots name ∧ index.Acyclic name)
    (hsound : Sound index region roots solver) :
    Sound index region roots later ∧ AllDenote index region later exprs formulas := by
  induction h with
  | nil solver => exact ⟨hsound, .nil⟩
  | cons _ hothers ihFirst ihOthers =>
    obtain ⟨hcomparesFirst, hcomparesOthers⟩ := List.forall_mem_cons.mp hcompares
    obtain ⟨hnamesFirst, hnamesOthers⟩ := List.forall_mem_cons.mp hnames
    obtain ⟨hmiddle, hfirst⟩ := ihFirst (List.forall_mem_singleton.mpr hcomparesFirst)
      (List.forall_mem_singleton.mpr hnamesFirst) hsound
    obtain ⟨hlater, hdenote⟩ := ihOthers hcomparesOthers hnamesOthers hmiddle
    obtain ⟨hhead, -⟩ := List.forall₂_cons.mp hfirst
    exact ⟨hlater, .cons (hhead.grow hothers.grows.atoms) hdenote⟩
  | @decided left right truth solver hreading =>
    have hconst := Denotes.const solver truth
    refine ⟨hsound, .cons ⟨hconst.bounded, fun keys => ?_⟩ .nil⟩
    rw [hconst.holds keys, Interpretation.holds_equals_ofKeys hreading, Reading.truth]
  | @compared left right subject number solver later hreading hatom =>
    have hcompare : index.Compares roots left right :=
      hcompares _ List.mem_cons_self (left, right) List.mem_cons_self
    obtain ⟨hlater, hdenotes⟩ := hsound.atomNumber (.operands hcompare hreading) hatom
    refine ⟨hlater, .cons ⟨hdenotes.bounded, fun keys => ?_⟩ .nil⟩
    rw [hdenotes.holds keys, Interpretation.holds_equals_ofKeys hreading, Reading.truth]
  | unknown hatom =>
    obtain ⟨hlater, hdenotes⟩ := hsound.atomNumber (.unknown _) hatom
    exact ⟨hlater, .cons hdenotes .nil⟩
  | not _ ih =>
    obtain ⟨hlater, hdenote⟩ := ih
      (List.forall_mem_singleton.mpr (List.forall_mem_singleton.mp hcompares))
      (List.forall_mem_singleton.mpr (List.forall_mem_singleton.mp hnames)) hsound
    obtain ⟨hdenotes, -⟩ := List.forall₂_cons.mp hdenote
    exact ⟨hlater, .cons hdenotes.not .nil⟩
  | and _ ih =>
    obtain ⟨hlater, hdenote⟩ := ih
      (ConditionExpr.forall_comparisons (hcompares _ List.mem_cons_self))
      (ConditionExpr.forall_allReferences.mp (hnames _ List.mem_cons_self)) hsound
    exact ⟨hlater, .cons (Denotes.and hdenote) .nil⟩
  | or _ ih =>
    obtain ⟨hlater, hdenote⟩ := ih
      (ConditionExpr.forall_comparisons (hcompares _ List.mem_cons_self))
      (ConditionExpr.forall_allReferences.mp (hnames _ List.mem_cons_self)) hsound
    exact ⟨hlater, .cons (Denotes.or hdenote) .nil⟩
  | noted hnoted => exact ⟨hsound, .cons (hsound.compiled _ _ hnoted) .nil⟩
  | @undefined name number solver later hundefined hatom =>
    obtain ⟨hlater, hdenotes⟩ := hsound.atomNumber (.undefined name) hatom
    have htruth : later.Denotes (.atom number) fun keys =>
        index.truth (.ofKeys index region keys) name := by
      simp only [ConditionIndex.truth_of_undefined hundefined]
      exact hdenotes
    exact ⟨hlater.noting htruth, .cons (htruth.grow (grows_noting ..).atoms) .nil⟩
  | @defined name expr formula solver later hexpr _ ih =>
    obtain ⟨hname, hacyclic⟩ := hnames _ List.mem_cons_self name List.mem_cons_self
    have hrefers : ∀ other ∈ expr.references, index.Refers name other :=
      fun other hother => ⟨expr, hexpr, hother⟩
    obtain ⟨hlater, hdenote⟩ := ih
      (List.forall_mem_singleton.mpr fun pair hpair => ⟨name, expr, hname, hexpr, hpair⟩)
      (List.forall_mem_singleton.mpr fun other hother =>
        ⟨hname.tail (hrefers other hother), hacyclic.of_refers (hrefers other hother)⟩) hsound
    obtain ⟨hdenotes, -⟩ := List.forall₂_cons.mp hdenote
    have htruth : later.Denotes formula fun keys =>
        index.truth (.ofKeys index region keys) name := by
      simp only [ConditionIndex.truth_of_defined hexpr hacyclic]
      exact hdenotes
    exact ⟨hlater.noting htruth, .cons (htruth.grow (grows_noting ..).atoms) .nil⟩

/-- A step that succeeds on sound tables, keeps them sound, only adds atoms and
has a result that is right for the tables it leaves. -/
def Yields {α : Type} (index : ConditionIndex) (region : Option String) (roots : String → Prop)
    (step : Compilation α) (right : Solver → α → Prop) : Prop :=
  ∀ solver, Sound index region roots solver → ∃ result later, step solver = .ok (result, later) ∧
    Sound index region roots later ∧ solver.atoms <+: later.atoms ∧ right later result

/-- A result may be changed to another one that is right for the same tables. -/
theorem Yields.map {α β : Type} {step : Compilation α} {right : Solver → α → Prop}
    (h : Yields index region roots step right) {after : Solver → β → Prop} {change : α → β}
    (hchange : ∀ solver result, right solver result → after solver (change result)) :
    Yields index region roots (change <$> step) after := by
  intro solver hsound
  obtain ⟨result, later, hstep, hlater, hgrow, hright⟩ := h solver hsound
  exact ⟨change result, later, Compilation.map_of_ok hstep change, hlater, hgrow,
    hchange later result hright⟩

/-- Steps for the items of a list succeed one after the other. What is right
for some tables has to stay right while atoms are added. -/
theorem Yields.mapM {α β : Type} {step : α → Compilation β} {right : Solver → α → β → Prop}
    (hgrows : ∀ solver later item result, solver.atoms <+: later.atoms →
      right solver item result → right later item result) {items : List α}
    (h : ∀ item ∈ items, Yields index region roots (step item) fun solver => right solver item) :
    Yields index region roots (items.mapM step) fun solver => List.Forall₂ (right solver) items := by
  induction items with
  | nil => exact fun solver hsound => ⟨[], solver, rfl, hsound, List.prefix_refl _, .nil⟩
  | cons item items ih =>
    intro solver hsound
    obtain ⟨result, middle, hstep, hmiddle, hgrow, hright⟩ :=
      h item List.mem_cons_self solver hsound
    obtain ⟨results, later, hsteps, hlater, hgrowLater, hrights⟩ :=
      ih (fun other hmem => h other (List.mem_cons_of_mem _ hmem)) middle hmiddle
    refine ⟨result :: results, later, ?_, hlater, hgrow.trans hgrowLater,
      .cons (hgrows middle later item result hgrowLater hright) hrights⟩
    rw [List.mapM_cons, Compilation.bind_of_ok hstep, Compilation.bind_of_ok hsteps]
    rfl

/-- Compiling an acyclic condition succeeds, and its formula has the truth value
of the condition. -/
theorem yields_compile {name : String} (hname : index.LedFrom roots name)
    (hacyclic : index.Acyclic name) :
    Yields index region roots (compile index region name)
      fun solver formula => solver.Denotes formula fun keys =>
        index.truth (.ofKeys index region keys) name := by
  intro solver hsound
  obtain ⟨formula, later, hcompile, hruns⟩ := exists_compile_of_acyclic region hacyclic solver
  have hcompares : ∀ expr ∈ [ConditionExpr.condition name], ∀ pair ∈ expr.comparisons,
      index.Compares roots pair.1 pair.2 :=
    List.forall_mem_singleton.mpr fun _ hpair => absurd hpair List.not_mem_nil
  have hnames : ∀ expr ∈ [ConditionExpr.condition name], ∀ other ∈ expr.references,
      index.LedFrom roots other ∧ index.Acyclic other :=
    List.forall_mem_singleton.mpr (List.forall_mem_singleton.mpr ⟨hname, hacyclic⟩)
  obtain ⟨hlater, hdenote⟩ := hruns.sound hcompares hnames hsound
  obtain ⟨hdenotes, -⟩ := List.forall₂_cons.mp hdenote
  exact ⟨formula, later, hcompile, hlater, hruns.grows.atoms, hdenotes⟩

/-- A choice is right if its formula has the truth value of its condition. -/
structure Choice.Right (index : ConditionIndex) (region : Option String) (solver : Solver)
    (constraint : String × TruthSet) (choice : Choice) : Prop where
  /-- It is about the constrained name. -/
  name : choice.name = constraint.1
  /-- It allows the truth values of the constraint. -/
  truths : choice.truths = constraint.2
  /-- Its formula is the condition's. -/
  denotes : solver.Denotes choice.formula fun keys =>
    index.truth (.ofKeys index region keys) constraint.1

/-- Constrained conditions are compiled one after the other. -/
theorem compileChoices_eq_mapM (constraints : Constraints) :
    compileChoices index region constraints =
      constraints.mapM fun constraint =>
        (⟨constraint.1, ·, constraint.2⟩) <$> compile index region constraint.1 := by
  induction constraints with
  | nil => rw [compileChoices, List.mapM_nil]
  | cons constraint constraints ih =>
    rw [compileChoices, List.mapM_cons, ih, bind_map_left]

/-- Compiling acyclic constrained conditions succeeds. -/
theorem yields_compileChoices {constraints : Constraints}
    (hroots : ∀ name ∈ Entries.keys constraints, roots name)
    (hacyclic : ∀ name ∈ Entries.keys constraints, index.Acyclic name) :
    Yields index region roots (compileChoices index region constraints)
      fun solver => List.Forall₂ (Choice.Right index region solver) constraints := by
  rw [compileChoices_eq_mapM]
  refine Yields.mapM ?_ ?_
  · exact fun _ _ _ _ hgrow h => ⟨h.name, h.truths, h.denotes.grow hgrow⟩
  · intro constraint hmem
    have hname : constraint.1 ∈ Entries.keys constraints := List.mem_map_of_mem hmem
    exact Yields.map (yields_compile (.root (hroots _ hname)) (hacyclic _ hname))
      fun _ _ hdenotes => ⟨rfl, rfl, hdenotes⟩

/-- From empty tables, acyclic constrained conditions are compiled to choices
whose formulas say what the conditions say. -/
theorem exists_compileChoices {constraints : Constraints} (region : Option String)
    (hacyclic : ∀ name ∈ Entries.keys constraints, index.Acyclic name) :
    ∃ choices solver, compileChoices index region constraints {} = .ok (choices, solver) ∧
      Sound index region (· ∈ Entries.keys constraints) solver ∧
      List.Forall₂ (Choice.Right index region solver) constraints choices := by
  have hyields : Yields index region (· ∈ Entries.keys constraints) _ _ :=
    yields_compileChoices (fun _ hname => hname) hacyclic
  obtain ⟨choices, solver, hcompile, hsound, -, hright⟩ := hyields {} .empty
  exact ⟨choices, solver, hcompile, hsound, hright⟩

/-- A goal is right if its formula has the truth value of its condition. -/
structure GoalRight (index : ConditionIndex) (region : Option String) (solver : Solver)
    (wanted : String × Bool) (goal : Formula × Bool) : Prop where
  /-- The truth value is the wanted one. -/
  truth : goal.2 = wanted.2
  /-- Its formula is the condition's. -/
  denotes : solver.Denotes goal.1 fun keys => index.truth (.ofKeys index region keys) wanted.1

/-- The conditions of a scenario are compiled one after the other. -/
theorem compileGoals_eq_mapM (truths : List (String × Bool)) :
    compileGoals index region truths =
      truths.mapM fun wanted => ((·, wanted.2)) <$> compile index region wanted.1 := by
  induction truths with
  | nil => rw [compileGoals, List.mapM_nil]
  | cons wanted truths ih => rw [compileGoals, List.mapM_cons, ih, bind_map_left]

/-- Compiling the acyclic conditions of a scenario succeeds. -/
theorem yields_compileGoals {truths : List (String × Bool)}
    (hacyclic : ∀ name ∈ Entries.keys truths, index.Acyclic name) :
    Yields index region (· ∈ Entries.keys truths) (compileGoals index region truths)
      fun solver => List.Forall₂ (GoalRight index region solver) truths := by
  rw [compileGoals_eq_mapM]
  refine Yields.mapM ?_ ?_
  · exact fun _ _ _ _ hgrow h => ⟨h.truth, h.denotes.grow hgrow⟩
  · intro wanted hmem
    have hname : wanted.1 ∈ Entries.keys truths := List.mem_map_of_mem hmem
    exact Yields.map (yields_compile (.root hname) (hacyclic _ hname))
      fun _ _ hdenotes => ⟨rfl, hdenotes⟩

end Solver

end StackTemplate
