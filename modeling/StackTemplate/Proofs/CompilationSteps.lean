import Mathlib.Data.Finset.Card
import Mathlib.Data.String.Basic
import Mathlib.Data.Sym.Sym2
import StackTemplate.Condition.Solver
import StackTemplate.Proofs.Truth

/-!
# What compilation does

Compiling an expression asks for atoms, joins formulas by connectives and goes
on to the names that the expression refers to, whose formulas are noted. It is
said once how the tables and the formulas come about if a compilation succeeds
and which name stops it if it does not. What formulas mean, which names can be
compiled and how the tables grow all follow from this by induction.
-/

namespace StackTemplate

open Relation (TransGen)

/-- What an atom is about. -/
inductive Subject where
  /-- Whether a parameter has a text as its value. -/
  | comparison (parameter text : String)
  /-- Whether two operands of any other kind are equal. -/
  | pair (operands : Sym2 Operand)
  /-- The expression with a digest. -/
  | unknown (digest : String)
  /-- A name that is not defined. -/
  | undefined (name : String)

/-- The key of a comparison does not depend on the order of its operands. -/
theorem Solver.pairKey_comm (left right : Operand) : pairKey left right = pairKey right left := by
  unfold pairKey
  rcases lt_trichotomy left.key right.key with hlt | heq | hgt
  · rw [if_neg hlt.asymm, if_pos hlt]
  · rw [heq]
  · rw [if_pos hgt, if_neg hgt.asymm]

namespace Subject

/-- The text that identifies the atom. -/
def key : Subject → String
  | .comparison parameter text => "equals:" ++ parameter ++ "=" ++ text
  | .pair operands => Sym2.lift ⟨Solver.pairKey, Solver.pairKey_comm⟩ operands
  | .unknown digest => "opaque:" ++ digest
  | .undefined name => "condition:" ++ name

/-- The parameter and the text that are compared, if the atom does so. -/
def compared? : Subject → Option (String × String)
  | .comparison parameter text => some (parameter, text)
  | _ => none

/-- The atom. -/
def atom (subject : Subject) : Atom := ⟨subject.key, subject.compared?⟩

end Subject

/-- What a comparison comes to. -/
inductive Reading where
  /-- It has a truth value already. -/
  | decided (truth : Bool)
  /-- It depends on an atom. -/
  | free (subject : Subject)

namespace Reading

/-- What the comparison of a declared parameter with a text comes to: allowed
values decide if the text is not among them. -/
def ofDeclared (index : ConditionIndex) (parameter text : String) : Reading :=
  match index.allowed? parameter with
  | some allowed =>
    if text ∈ allowed then .free (.comparison parameter text) else .decided false
  | none => .free (.comparison parameter text)

/-- What the comparison of a parameter with a text comes to: a given region
decides about the region. -/
def ofMatch (index : ConditionIndex) (region : Option String) (parameter text : String) :
    Reading :=
  match region with
  | some region =>
    if parameter = "AWS::Region" then .decided (region == text)
    else ofDeclared index parameter text
  | none => ofDeclared index parameter text

/-- What a comparison comes to. -/
def ofOperands (index : ConditionIndex) (region : Option String) : Operand → Operand → Reading
  | .literal left, .literal right => .decided (left == right)
  | .ref parameter, .literal text => ofMatch index region parameter text
  | .literal text, .ref parameter => ofMatch index region parameter text
  | .ref left, .ref right =>
    if left = right then .decided true else .free (.pair s(.ref left, .ref right))
  | left, right => .free (.pair s(left, right))

/-- The truth value of a comparison when keys have truth values. -/
def truth (keys : String → Bool) : Reading → Bool
  | .decided truth => truth
  | .free subject => keys subject.key

/-- The formula of a comparison. -/
def compile : Reading → Compilation Formula
  | .decided truth => return .const truth
  | .free subject => Solver.atom subject.key subject.compared?

end Reading

/-- A declared comparison that nothing decides is about an allowed value. -/
theorem Reading.ofDeclared_eq_free {index : ConditionIndex} {parameter text : String}
    {subject : Subject} (h : ofDeclared index parameter text = .free subject) :
    subject = .comparison parameter text ∧
      ∀ allowed, index.allowed? parameter = some allowed → text ∈ allowed := by
  unfold ofDeclared at h
  split at h
  · next allowed hallowed =>
    split at h
    · next hmem =>
      cases h
      refine ⟨rfl, fun other hother => ?_⟩
      rw [hallowed] at hother
      exact Option.some.inj hother ▸ hmem
    · cases h
  · next hnone =>
    cases h
    refine ⟨rfl, fun other hother => ?_⟩
    rw [hnone] at hother
    cases hother

/-- A comparison of a parameter with a text that nothing decides is not about a
given region, and it is about an allowed value. -/
theorem Reading.ofMatch_eq_free {index : ConditionIndex} {region : Option String}
    {parameter text : String} {subject : Subject}
    (h : ofMatch index region parameter text = .free subject) :
    subject = .comparison parameter text ∧ (parameter = "AWS::Region" → region = none) ∧
      ∀ allowed, index.allowed? parameter = some allowed → text ∈ allowed := by
  cases region with
  | none =>
    obtain ⟨hsubject, hallowed⟩ := ofDeclared_eq_free h
    exact ⟨hsubject, fun _ => rfl, hallowed⟩
  | some region =>
    rw [ofMatch] at h
    split at h
    · cases h
    · next hne =>
      obtain ⟨hsubject, hallowed⟩ := ofDeclared_eq_free h
      exact ⟨hsubject, fun he => absurd he hne, hallowed⟩

/-- A comparison that nothing decides is about a parameter and a text only if
it compares the two. -/
theorem Reading.ofOperands_eq_comparison {index : ConditionIndex} {region : Option String}
    {left right : Operand} {parameter text : String}
    (h : ofOperands index region left right = .free (.comparison parameter text)) :
    (left = .ref parameter ∧ right = .literal text ∨
        left = .literal text ∧ right = .ref parameter) ∧
      ofMatch index region parameter text = .free (.comparison parameter text) := by
  cases left with
  | literal first =>
    cases right with
    | literal second => cases h
    | ref second =>
      obtain ⟨hsubject, -⟩ := ofMatch_eq_free h
      cases hsubject
      exact ⟨.inr ⟨rfl, rfl⟩, h⟩
    | other digest => cases h
  | ref first =>
    cases right with
    | literal second =>
      obtain ⟨hsubject, -⟩ := ofMatch_eq_free h
      cases hsubject
      exact ⟨.inl ⟨rfl, rfl⟩, h⟩
    | ref second =>
      rw [ofOperands] at h
      split at h <;> cases h
    | other digest => cases h
  | other digest => cases right <;> cases h

namespace ConditionIndex

variable {index : ConditionIndex} {stack : List String} {name : String}

/-- How many defined names are not on a stack. -/
def room (index : ConditionIndex) (stack : List String) : Nat :=
  (index.names.toFinset \ stack.toFinset).card

/-- There is no more room than for all conditions. -/
theorem room_le (index : ConditionIndex) (stack : List String) :
    index.room stack ≤ index.conditions.length := by
  calc index.room stack
      ≤ index.names.toFinset.card := Finset.card_le_card Finset.sdiff_subset
    _ ≤ index.names.length := List.toFinset_card_le _
    _ = index.conditions.length := List.length_map _

/-- A defined name that is not on the stack takes up room. -/
theorem room_cons_lt {expr : ConditionExpr} (hnew : name ∉ stack)
    (hexpr : index.get? name = some expr) : index.room (name :: stack) < index.room stack := by
  rw [room, room, List.toFinset_cons, Finset.sdiff_insert]
  refine Finset.card_erase_lt_of_mem (Finset.mem_sdiff.mpr ⟨?_, ?_⟩)
  · exact List.mem_toFinset.mpr (mem_names_of_get? hexpr)
  · exact fun hmem => hnew (List.mem_toFinset.mp hmem)

end ConditionIndex

namespace Compilation

variable {α β : Type} {solver later : Solver} {first : Compilation α} {result : α}

/-- A step that succeeds hands its result on. -/
theorem bind_of_ok (h : first solver = .ok (result, later)) (next : α → Compilation β) :
    (first >>= next) solver = next result later := by
  change (first solver >>= fun pair => next pair.1 pair.2) = next result later
  rw [h]
  rfl

/-- Nothing follows a step that fails. -/
theorem bind_of_error {error : ScenarioError} (h : first solver = .error error)
    (next : α → Compilation β) : (first >>= next) solver = .error error := by
  change (first solver >>= fun pair => next pair.1 pair.2) = .error error
  rw [h]
  rfl

/-- Steps that succeed together succeed one after the other. -/
theorem exists_of_bind_eq_ok {next : α → Compilation β} {last : β × Solver}
    (h : (first >>= next) solver = .ok last) :
    ∃ result later, first solver = .ok (result, later) ∧ next result later = .ok last := by
  change (first solver >>= fun pair => next pair.1 pair.2) = .ok last at h
  cases hfirst : first solver with
  | error error =>
    rw [hfirst] at h
    cases h
  | ok pair =>
    rw [hfirst] at h
    exact ⟨pair.1, pair.2, rfl, h⟩

/-- Reading the tables hands them on. -/
theorem get_bind (next : Solver → Compilation β) (solver : Solver) :
    ((get : Compilation Solver) >>= next) solver = next solver solver := rfl

/-- A step that succeeds has its result changed. -/
theorem map_of_ok (h : first solver = .ok (result, later)) (change : α → β) :
    (change <$> first) solver = .ok (change result, later) := by
  change (first solver >>= fun pair => pure (change pair.1, pair.2)) = .ok (change result, later)
  rw [h]
  rfl

/-- What a step can do: whatever the tables are, it succeeds in one way or fails in
another. -/
def Does (step : Compilation α) (runs : Solver → α → Solver → Prop)
    (fails : ScenarioError → Prop) : Prop :=
  ∀ solver, (∃ result later, step solver = .ok (result, later) ∧ runs solver result later) ∨
    ∃ error, step solver = .error error ∧ fails error

section Does

variable {step : Compilation α} {runs : Solver → α → Solver → Prop}
  {fails : ScenarioError → Prop}

/-- A step that succeeds does so in its own way. -/
theorem Does.runs_of_ok (h : Does step runs fails) (hstep : step solver = .ok (result, later)) :
    runs solver result later := by
  rcases h solver with ⟨_, _, hok, hruns⟩ | ⟨_, herror, -⟩
  · rw [hstep] at hok
    cases hok
    exact hruns
  · rw [hstep] at herror
    cases herror

/-- A step that fails does so in its own way. -/
theorem Does.fails_of_error (h : Does step runs fails) {error : ScenarioError}
    (hstep : step solver = .error error) : fails error := by
  rcases h solver with ⟨_, _, hok, -⟩ | ⟨_, herror, hfails⟩
  · rw [hstep] at hok
    cases hok
  · rw [hstep] at herror
    cases herror
    exact hfails

/-- A step may be described less closely where it fails. -/
theorem Does.imp_fails (h : Does step runs fails) {weaker : ScenarioError → Prop}
    (himp : ∀ error, fails error → weaker error) : Does step runs weaker := by
  intro solver
  rcases h solver with hok | ⟨error, herror, hfails⟩
  · exact .inl hok
  · exact .inr ⟨error, herror, himp error hfails⟩

/-- One step follows another that succeeds, and nothing follows one that fails. -/
theorem Does.bind (h : Does step runs fails) {next : α → Compilation β}
    {runsNext : Solver → β → Solver → Prop}
    (hnext : ∀ solver result middle, runs solver result middle →
      (∃ last later, next result middle = .ok (last, later) ∧ runsNext solver last later) ∨
        ∃ error, next result middle = .error error ∧ fails error) :
    Does (step >>= next) runsNext fails := by
  intro solver
  rcases h solver with ⟨result, middle, hok, hruns⟩ | ⟨error, herror, hfails⟩
  · rw [bind_of_ok hok]
    exact hnext solver result middle hruns
  · exact .inr ⟨error, bind_of_error herror next, hfails⟩

/-- The result of a step that succeeds may be changed. -/
theorem Does.map (h : Does step runs fails) {change : α → β}
    {runsChanged : Solver → β → Solver → Prop}
    (hchange : ∀ solver result later, runs solver result later →
      runsChanged solver (change result) later) : Does (change <$> step) runsChanged fails := by
  rw [map_eq_pure_bind]
  exact h.bind fun solver result later hruns =>
    .inl ⟨change result, later, rfl, hchange solver result later hruns⟩

end Does

end Compilation

namespace Solver

variable {index : ConditionIndex} {region : Option String}

/-- A comparison of a parameter with a text is compiled as it is read. -/
theorem compileMatch_eq (parameter text : String) :
    compileMatch index region parameter text =
      (Reading.ofMatch index region parameter text).compile := by
  have hdeclared : (match index.allowed? parameter with
      | some allowed =>
        if text ∈ allowed then atom ("equals:" ++ parameter ++ "=" ++ text) (some (parameter, text))
        else return .const false
      | none => atom ("equals:" ++ parameter ++ "=" ++ text) (some (parameter, text))) =
      (Reading.ofDeclared index parameter text).compile := by
    unfold Reading.ofDeclared
    cases index.allowed? parameter with
    | none => rfl
    | some allowed =>
      dsimp only
      split <;> rfl
  unfold compileMatch Reading.ofMatch
  cases region with
  | none => exact hdeclared
  | some region =>
    dsimp only
    split
    · rfl
    · exact hdeclared

/-- A comparison is compiled as it is read. -/
theorem compileEquals_eq (left right : Operand) :
    compileEquals index region left right =
      (Reading.ofOperands index region left right).compile := by
  cases left with
  | literal left =>
    cases right with
    | literal right => rfl
    | ref parameter => exact compileMatch_eq parameter left
    | other digest => rfl
  | ref left =>
    cases right with
    | literal text => exact compileMatch_eq left text
    | ref right =>
      unfold compileEquals Reading.ofOperands
      dsimp only
      split <;> rfl
    | other digest => rfl
  | other digest => cases right <;> rfl

/-- A key has the number of its atom, or gets a new atom if it was not met before. -/
theorem atomNumber_cases (solver : Solver) (key : String) (equals : Option (String × String)) :
    (∃ number atom, solver.atoms[number]? = some atom ∧ atom.key = key ∧
        solver.atomNumber key equals = (number, solver)) ∨
      ((∀ atom ∈ solver.atoms, atom.key ≠ key) ∧
        solver.atomNumber key equals =
          (solver.atoms.length, { solver with atoms := solver.atoms ++ [⟨key, equals⟩] })) := by
  rw [atomNumber]
  cases hfind : solver.atoms.findIdx? fun atom => atom.key = key with
  | some number =>
    obtain ⟨hlt, hkey, -⟩ := List.findIdx?_eq_some_iff_getElem.mp hfind
    exact .inl ⟨number, _, List.getElem?_eq_getElem hlt, of_decide_eq_true hkey, rfl⟩
  | none =>
    exact .inr ⟨fun atom hmem => of_decide_eq_false (List.findIdx?_eq_none_iff.mp hfind atom hmem),
      rfl⟩

/-- A new atom leaves the formulas of names alone. -/
theorem compiled_atomNumber {solver later : Solver} {key : String}
    {equals : Option (String × String)} {number : Nat}
    (h : solver.atomNumber key equals = (number, later)) : later.compiled = solver.compiled := by
  rcases solver.atomNumber_cases key equals with ⟨_, _, -, -, hfound⟩ | ⟨-, hadded⟩
  · cases h.symm.trans hfound
    rfl
  · cases h.symm.trans hadded
    rfl

/-- The tables with the formula of a condition noted. -/
def noting (solver : Solver) (name : String) (formula : Formula) : Solver :=
  { solver with compiled := (name, formula) :: solver.compiled }

/-- Expressions are compiled one after the other, from some tables to others. -/
inductive Compiles (index : ConditionIndex) (region : Option String) :
    List ConditionExpr → Solver → List Formula → Solver → Prop where
  /-- Nothing is compiled. -/
  | nil (solver : Solver) : Compiles index region [] solver [] solver
  /-- One expression is compiled before the others. -/
  | cons {expr : ConditionExpr} {exprs : List ConditionExpr} {formula : Formula}
      {formulas : List Formula} {solver middle later : Solver}
      (hfirst : Compiles index region [expr] solver [formula] middle)
      (hothers : Compiles index region exprs middle formulas later) :
      Compiles index region (expr :: exprs) solver (formula :: formulas) later
  /-- A comparison is decided. -/
  | decided {left right : Operand} {truth : Bool} {solver : Solver}
      (hreading : Reading.ofOperands index region left right = .decided truth) :
      Compiles index region [.equals left right] solver [.const truth] solver
  /-- A comparison becomes an atom. -/
  | compared {left right : Operand} {subject : Subject} {number : Nat} {solver later : Solver}
      (hreading : Reading.ofOperands index region left right = .free subject)
      (hatom : solver.atomNumber subject.key subject.compared? = (number, later)) :
      Compiles index region [.equals left right] solver [.atom number] later
  /-- An expression that is not understood becomes an atom. -/
  | unknown {digest : String} {number : Nat} {solver later : Solver}
      (hatom : solver.atomNumber (Subject.unknown digest).key none = (number, later)) :
      Compiles index region [.unknown digest] solver [.atom number] later
  /-- The operand of a negation is compiled. -/
  | not {expr : ConditionExpr} {formula : Formula} {solver later : Solver}
      (h : Compiles index region [expr] solver [formula] later) :
      Compiles index region [.not expr] solver [.not formula] later
  /-- The operands of a conjunction are compiled. -/
  | and {exprs : List ConditionExpr} {formulas : List Formula} {solver later : Solver}
      (h : Compiles index region exprs solver formulas later) :
      Compiles index region [.and exprs] solver [.and formulas] later
  /-- The operands of a disjunction are compiled. -/
  | or {exprs : List ConditionExpr} {formulas : List Formula} {solver later : Solver}
      (h : Compiles index region exprs solver formulas later) :
      Compiles index region [.or exprs] solver [.or formulas] later
  /-- A name was compiled before. -/
  | noted {name : String} {formula : Formula} {solver : Solver}
      (hnoted : Entries.get? name solver.compiled = some formula) :
      Compiles index region [.condition name] solver [formula] solver
  /-- A name that is not defined becomes an atom. -/
  | undefined {name : String} {number : Nat} {solver later : Solver}
      (hundefined : index.get? name = none)
      (hatom : solver.atomNumber (Subject.undefined name).key none = (number, later)) :
      Compiles index region [.condition name] solver [.atom number]
        (later.noting name (.atom number))
  /-- The expression of a defined name is compiled. -/
  | defined {name : String} {expr : ConditionExpr} {formula : Formula} {solver later : Solver}
      (hexpr : index.get? name = some expr)
      (h : Compiles index region [expr] solver [formula] later) :
      Compiles index region [.condition name] solver [formula] (later.noting name formula)

/-- One expression is compiled, from some tables to others. -/
abbrev CompilesExpr (index : ConditionIndex) (region : Option String) (expr : ConditionExpr)
    (solver : Solver) (formula : Formula) (later : Solver) : Prop :=
  Compiles index region [expr] solver [formula] later

/-- What stops the compilation of a name while the names on a stack are being
compiled. -/
inductive Refused (index : ConditionIndex) :
    Nat → List String → String → ScenarioError → Prop where
  /-- The name is being compiled already. -/
  | onStack {height : Nat} {stack : List String} {name : String} (hmem : name ∈ stack) :
      Refused index height stack name (.cycle name)
  /-- The bound on the height of the stack is used up. -/
  | exhausted {stack : List String} {name : String} {expr : ConditionExpr} (hnew : name ∉ stack)
      (hexpr : index.get? name = some expr) : Refused index 0 stack name (.cycle name)
  /-- A name that it refers to is refused. -/
  | inner {height : Nat} {stack : List String} {name other : String} {error : ScenarioError}
      (hnew : name ∉ stack) (hrefers : index.Refers name other)
      (h : Refused index height (name :: stack) other error) :
      Refused index (height + 1) stack name error

/-- Asking for an atom never fails. -/
theorem atom_eq (key : String) (equals : Option (String × String)) (solver : Solver) :
    atom key equals solver = .ok (.atom (solver.atomNumber key equals).1,
      (solver.atomNumber key equals).2) := rfl

/-- Noting a formula never fails. -/
theorem remember_eq (name : String) (formula : Formula) (solver : Solver) :
    remember name formula solver = .ok (formula, solver.noting name formula) := rfl

section Expressions

variable {compileName : String → Compilation Formula} {fails : ScenarioError → Prop}

/-- A comparison is decided or becomes an atom. -/
theorem does_compileEquals (left right : Operand) :
    Compilation.Does (compileEquals index region left right)
      (CompilesExpr index region (.equals left right)) fails := by
  intro solver
  rw [compileEquals_eq]
  cases hreading : Reading.ofOperands index region left right with
  | decided truth => exact .inl ⟨.const truth, solver, rfl, .decided hreading⟩
  | free subject => exact .inl ⟨_, _, atom_eq _ _ solver, .compared hreading rfl⟩

/-- Several expressions are compiled one after the other. -/
theorem compileExprs_eq_mapM (compileName : String → Compilation Formula)
    (operands : List ConditionExpr) :
    compileExprs index region compileName operands =
      operands.mapM (compileExpr index region compileName) := by
  induction operands with
  | nil => rw [compileExprs, List.mapM_nil]
  | cons operand operands ih => rw [compileExprs, List.mapM_cons, ih]

/-- Several expressions are compiled as told, unless one of them fails. -/
theorem does_compileExprs {operands : List ConditionExpr}
    (h : ∀ operand ∈ operands,
      Compilation.Does (compileExpr index region compileName operand)
        (CompilesExpr index region operand) fails) :
    Compilation.Does (compileExprs index region compileName operands)
      (Compiles index region operands) fails := by
  induction operands with
  | nil => exact fun solver => .inl ⟨[], solver, rfl, .nil solver⟩
  | cons operand operands ih =>
    rw [compileExprs]
    refine (h operand List.mem_cons_self).bind fun solver formula middle hfirst => ?_
    have hothers := ih fun other hother => h other (List.mem_cons_of_mem _ hother)
    rcases hothers middle with ⟨formulas, later, hok, hruns⟩ | ⟨error, herror, hfails⟩
    · exact .inl ⟨_, later, Compilation.bind_of_ok hok _, .cons hfirst hruns⟩
    · exact .inr ⟨error, Compilation.bind_of_error herror _, hfails⟩

/-- An expression is compiled as told, unless a name that it refers to fails. -/
theorem does_compileExpr {expr : ConditionExpr}
    (hnames : ∀ name ∈ expr.references, Compilation.Does (compileName name)
      (CompilesExpr index region (.condition name)) fails) :
    Compilation.Does (compileExpr index region compileName expr)
      (CompilesExpr index region expr) fails := by
  induction expr with
  | equals left right =>
    rw [compileExpr]
    exact does_compileEquals left right
  | and operands ih =>
    rw [compileExpr]
    exact (does_compileExprs fun operand hmem =>
      ih operand hmem (ConditionExpr.forall_allReferences.mp hnames operand hmem)).map fun _ _ _ => .and
  | or operands ih =>
    rw [compileExpr]
    exact (does_compileExprs fun operand hmem =>
      ih operand hmem (ConditionExpr.forall_allReferences.mp hnames operand hmem)).map fun _ _ _ => .or
  | not operand ih =>
    rw [compileExpr]
    exact (ih hnames).map fun _ _ _ => .not
  | condition name =>
    rw [compileExpr]
    exact hnames name List.mem_cons_self
  | unknown digest =>
    rw [compileExpr]
    exact fun solver => .inl ⟨_, _, atom_eq _ _ solver, .unknown rfl⟩

/-- The formula of an expression depends only on the allowed values and on the
compilation of the names that it refers to. -/
theorem compileExpr_congr {other : ConditionIndex}
    (hallowed : index.allowedValues = other.allowedValues)
    {first second : String → Compilation Formula} {expr : ConditionExpr}
    (h : ∀ name ∈ expr.references, first name = second name) :
    compileExpr index region first expr = compileExpr other region second expr := by
  have hoperands : ∀ operands : List ConditionExpr,
      (∀ operand ∈ operands, compileExpr index region first operand =
        compileExpr other region second operand) →
      compileExprs index region first operands = compileExprs other region second operands := by
    intro operands hall
    induction operands with
    | nil => rfl
    | cons operand operands ih =>
      rw [compileExprs, compileExprs, hall operand List.mem_cons_self,
        ih fun other hother => hall other (List.mem_cons_of_mem _ hother)]
  induction expr with
  | equals left right =>
    simp only [compileExpr, compileEquals, compileMatch, ConditionIndex.allowed?, hallowed]
  | and operands ih =>
    rw [compileExpr, compileExpr, hoperands operands fun operand hmem =>
      ih operand hmem (ConditionExpr.forall_allReferences.mp h operand hmem)]
  | or operands ih =>
    rw [compileExpr, compileExpr, hoperands operands fun operand hmem =>
      ih operand hmem (ConditionExpr.forall_allReferences.mp h operand hmem)]
  | not operand ih => rw [compileExpr, compileExpr, ih h]
  | condition name => exact h name List.mem_cons_self
  | unknown digest => rfl

end Expressions

section Names

variable {height : Nat} {stack : List String} {name : String} {solver later : Solver}

/-- A condition that was compiled before keeps its formula. -/
theorem compileNested_of_compiled {formula : Formula}
    (h : Entries.get? name solver.compiled = some formula) :
    compileNested index region height stack name solver = .ok (formula, solver) := by
  rw [compileNested.eq_def, Compilation.get_bind, h]
  rfl

/-- A condition that is being compiled is refused. -/
theorem compileNested_of_mem (hnew : Entries.get? name solver.compiled = none)
    (hmem : name ∈ stack) :
    compileNested index region height stack name solver = .error (.cycle name) := by
  rw [compileNested.eq_def, Compilation.get_bind, hnew]
  dsimp only
  rw [if_pos hmem]
  rfl

/-- A name that is not defined becomes an atom. -/
theorem compileNested_of_undefined (hnew : Entries.get? name solver.compiled = none)
    (hstack : name ∉ stack) (hundefined : index.get? name = none) :
    compileNested index region height stack name solver =
      (atom (Subject.undefined name).key none >>= remember name) solver := by
  rw [compileNested.eq_def, Compilation.get_bind, hnew]
  dsimp only
  rw [if_neg hstack, hundefined]
  rfl

/-- A defined name is refused if the bound is used up. -/
theorem compileNested_zero {expr : ConditionExpr}
    (hnew : Entries.get? name solver.compiled = none) (hstack : name ∉ stack)
    (hexpr : index.get? name = some expr) :
    compileNested index region 0 stack name solver = .error (.cycle name) := by
  rw [compileNested.eq_def, Compilation.get_bind, hnew]
  dsimp only
  rw [if_neg hstack, hexpr]
  rfl

/-- A defined name is compiled through its expression. -/
theorem compileNested_of_defined {expr : ConditionExpr}
    (hnew : Entries.get? name solver.compiled = none) (hstack : name ∉ stack)
    (hexpr : index.get? name = some expr) :
    compileNested index region (height + 1) stack name solver =
      (compileExpr index region (compileNested index region height (name :: stack)) expr >>=
        remember name) solver := by
  rw [compileNested.eq_def, Compilation.get_bind, hnew]
  dsimp only
  rw [if_neg hstack, hexpr]

/-- A name is compiled as told, or it is refused. -/
theorem does_compileNested (height : Nat) (stack : List String) (name : String) :
    Compilation.Does (compileNested index region height stack name)
      (CompilesExpr index region (.condition name)) (Refused index height stack name) := by
  induction height using Nat.strongRecOn generalizing stack name with
  | ind height ih =>
    intro solver
    cases hnoted : Entries.get? name solver.compiled with
    | some formula => exact .inl ⟨formula, solver, compileNested_of_compiled hnoted, .noted hnoted⟩
    | none =>
      by_cases hmem : name ∈ stack
      · exact .inr ⟨_, compileNested_of_mem hnoted hmem, .onStack hmem⟩
      · cases hexpr : index.get? name with
        | none =>
          rw [compileNested_of_undefined hnoted hmem hexpr,
            Compilation.bind_of_ok (atom_eq _ _ solver)]
          exact .inl ⟨_, _, remember_eq _ _ _, .undefined hexpr rfl⟩
        | some expr =>
          cases height with
          | zero => exact .inr ⟨_, compileNested_zero hnoted hmem hexpr, .exhausted hmem hexpr⟩
          | succ height =>
            rw [compileNested_of_defined hnoted hmem hexpr]
            have hnames : ∀ other ∈ expr.references,
                Compilation.Does (compileNested index region height (name :: stack) other)
                  (CompilesExpr index region (.condition other))
                  (Refused index (height + 1) stack name) := fun other hother =>
              (ih height height.lt_succ_self (name :: stack) other).imp_fails fun _ hrefused =>
                .inner hmem ⟨expr, hexpr, hother⟩ hrefused
            refine (does_compileExpr hnames).bind (fun _ formula middle hruns => ?_) solver
            exact .inl ⟨formula, _, remember_eq name formula middle, .defined hexpr hruns⟩

/-- If all names on the stack lead to a name that is refused, the name that is
reported leads back to itself, and the refused one leads to it. The bound on the
height is not used up as long as there is room. -/
theorem Refused.cycle {error : ScenarioError} (h : Refused index height stack name error)
    (hroom : index.room stack ≤ height) (htrail : ∀ other ∈ stack, TransGen index.Refers other name) :
    ∃ last, error = .cycle last ∧ index.Leads name last ∧ TransGen index.Refers last last := by
  induction h with
  | @onStack height stack name hmem => exact ⟨name, rfl, .refl, htrail name hmem⟩
  | @exhausted stack name expr hnew hexpr =>
    have hlt := ConditionIndex.room_cons_lt hnew hexpr
    omega
  | @inner height stack name other error hnew hrefers _ ih =>
    obtain ⟨expr, hexpr, hother⟩ := hrefers
    have hrefers : index.Refers name other := ⟨expr, hexpr, hother⟩
    have hlt := ConditionIndex.room_cons_lt hnew hexpr
    have hlater : ∀ earlier ∈ name :: stack, TransGen index.Refers earlier other :=
      List.forall_mem_cons.mpr ⟨.single hrefers,
        fun earlier hearlier => (htrail earlier hearlier).tail hrefers⟩
    obtain ⟨last, hlast, hleads, hcycle⟩ := ih (by omega) hlater
    exact ⟨last, hlast, .head hrefers hleads, hcycle⟩

/-- A name that is reported leads back to itself, and the name that was to be
compiled leads to it. -/
theorem cycle_of_compile {last : String}
    (h : compile index region name solver = .error (.cycle last)) :
    index.Leads name last ∧ TransGen index.Refers last last := by
  have hrefused := (does_compileNested _ [] name).fails_of_error h
  obtain ⟨_, hlast, hcycle⟩ := hrefused.cycle (index.room_le []) fun _ hmem =>
    absurd hmem List.not_mem_nil
  cases hlast
  exact hcycle

/-- An acyclic name is compiled. -/
theorem exists_compile_of_acyclic (region : Option String) (hacyclic : index.Acyclic name)
    (solver : Solver) :
    ∃ formula later, compile index region name solver = .ok (formula, later) ∧
      CompilesExpr index region (.condition name) solver formula later := by
  rcases does_compileNested index.conditions.length [] name solver with hok | ⟨_, herror, hrefused⟩
  · exact hok
  · obtain ⟨last, rfl, -⟩ := hrefused.cycle (index.room_le []) fun _ hmem =>
      absurd hmem List.not_mem_nil
    obtain ⟨hleads, hcycle⟩ := cycle_of_compile herror
    exact absurd hcycle (hacyclic last hleads)

end Names

/-- Tables that others grow to: atoms keep their numbers, and no key gets a
second one. -/
structure Grows (solver later : Solver) : Prop where
  /-- Atoms are only added. -/
  atoms : solver.atoms <+: later.atoms
  /-- Different atoms go on to have different keys. -/
  nodup : (solver.atoms.map Atom.key).Nodup → (later.atoms.map Atom.key).Nodup

section Growth

variable {solver later : Solver}

/-- Tables may stay as they are. -/
theorem Grows.refl (solver : Solver) : Grows solver solver := ⟨List.prefix_refl _, id⟩

/-- Tables may grow again. -/
theorem Grows.trans {last : Solver} (h : Grows solver later) (hlater : Grows later last) :
    Grows solver last :=
  ⟨h.atoms.trans hlater.atoms, fun hnodup => hlater.nodup (h.nodup hnodup)⟩

/-- Tables grow by an atom for a key that was not met before, if by anything. -/
theorem grows_atomNumber {key : String} {equals : Option (String × String)} {number : Nat}
    (h : solver.atomNumber key equals = (number, later)) : Grows solver later := by
  rcases solver.atomNumber_cases key equals with ⟨_, _, -, -, hfound⟩ | ⟨hfresh, hadded⟩
  · cases h.symm.trans hfound
    exact .refl solver
  · cases h.symm.trans hadded
    refine ⟨List.prefix_append _ _, fun hnodup => ?_⟩
    have hnew : key ∉ solver.atoms.map Atom.key := by
      intro hmem
      obtain ⟨atom, hatom, hsame⟩ := List.mem_map.mp hmem
      exact hfresh atom hatom hsame
    rw [List.map_append, List.map_singleton, ← List.concat_eq_append]
    exact hnodup.concat hnew

/-- A key has the number that it gets. -/
theorem key_of_atomNumber {key : String} {equals : Option (String × String)} {number : Nat}
    (h : solver.atomNumber key equals = (number, later)) :
    (later.atoms.map Atom.key)[number]? = some key := by
  rcases solver.atomNumber_cases key equals with ⟨_, atom, hatom, hkey, hfound⟩ | ⟨-, hadded⟩
  · cases h.symm.trans hfound
    rw [List.getElem?_map, hatom, Option.map_some, hkey]
  · cases h.symm.trans hadded
    rw [List.getElem?_map, List.getElem?_concat_length, Option.map_some]

/-- Noting a formula adds no atom. -/
theorem grows_noting (solver : Solver) (name : String) (formula : Formula) :
    Grows solver (solver.noting name formula) := ⟨List.prefix_refl _, id⟩

/-- Compiling expressions makes the tables grow. -/
theorem Compiles.grows {exprs : List ConditionExpr} {formulas : List Formula}
    (h : Compiles index region exprs solver formulas later) : Grows solver later := by
  induction h with
  | nil solver => exact .refl solver
  | cons _ _ hfirst hothers => exact hfirst.trans hothers
  | @decided _ _ _ solver _ => exact .refl solver
  | compared _ hatom => exact grows_atomNumber hatom
  | unknown hatom => exact grows_atomNumber hatom
  | not _ ih => exact ih
  | and _ ih => exact ih
  | or _ ih => exact ih
  | @noted _ _ solver _ => exact .refl solver
  | undefined _ hatom => exact (grows_atomNumber hatom).trans (grows_noting ..)
  | defined _ _ ih => exact ih.trans (grows_noting ..)

end Growth

end Solver

end StackTemplate
