import StackTemplate.Proofs.Identity
import StackTemplate.Proofs.Satisfiability

/-!
# Worlds

A world is a way in which a template can be deployed: every parameter has a
value, and whatever the analysis does not understand has a truth value. It
gives a truth value to every condition. Worlds and models of compiled formulas
correspond to each other as long as keys identify what atoms are about.
-/

namespace StackTemplate

/-- Values of parameters, and truth values of what is not understood. -/
structure World where
  /-- The value of every parameter, the region included. -/
  parameter : String → String
  /-- Whether two operands are equal, if they are no parameter and text. -/
  pair : Sym2 Operand → Bool
  /-- The truth value of the expression with a digest. -/
  unknown : String → Bool
  /-- The truth value of a name that is not defined. -/
  undefined : String → Bool

namespace World

/-- Whether two operands are equal in a world. -/
def equal (world : World) : Operand → Operand → Bool
  | .literal left, .literal right => left == right
  | .ref parameter, .literal text => world.parameter parameter == text
  | .literal text, .ref parameter => world.parameter parameter == text
  | .ref left, .ref right => left == right || world.pair s(.ref left, .ref right)
  | left, right => world.pair s(left, right)

/-- What the leaves of condition expressions mean in a world. -/
def meaning (world : World) : Interpretation := ⟨world.equal, world.unknown, world.undefined⟩

/-- The truth value of a condition in a world. -/
def truth (world : World) (index : ConditionIndex) (name : String) : Bool :=
  index.truth world.meaning name

/-- The world is in the given region, and all other parameters have allowed
values where these are declared. -/
structure Respects (world : World) (index : ConditionIndex) (region : Option String) : Prop where
  /-- The region is the given one. -/
  given : ∀ name, region = some name → world.parameter "AWS::Region" = name
  /-- Parameters have allowed values, unless the region is given. -/
  allowed : ∀ parameter allowed, index.allowed? parameter = some allowed →
    (parameter = "AWS::Region" → region = none) → world.parameter parameter ∈ allowed

/-- A world respects what is known if it is in the region and every parameter
with allowed values has one of them. -/
theorem Respects.of_entries {world : World} {index : ConditionIndex} {region : Option String}
    (hregion : ∀ name ∈ region, world.parameter "AWS::Region" = name)
    (hallowed : ∀ entry ∈ index.allowedValues, world.parameter entry.1 ∈ entry.2) :
    world.Respects index region where
  given name hname := hregion name hname
  allowed parameter allowed h _ := hallowed (parameter, allowed) (Entries.mem_of_get? h)

end World

/-- Whether what an atom is about is the case in a world. -/
def Subject.truth (world : World) : Subject → Bool
  | .comparison parameter text => world.parameter parameter == text
  | .pair operands => world.pair operands
  | .unknown digest => world.unknown digest
  | .undefined name => world.undefined name

namespace World

variable {index : ConditionIndex} {region : Option String} {roots : String → Prop}

open Classical in
/-- The truth values of keys in a world: a key is true if it belongs to
something that is the case. -/
noncomputable def keys (world : World) (key : String) : Bool :=
  decide (∃ subject : Subject, subject.Legible ∧ subject.key = key ∧ subject.truth world = true)

/-- The key of a subject that can be told apart has its truth value. -/
theorem keys_key (world : World) {subject : Subject} (h : subject.Legible) :
    world.keys subject.key = subject.truth world := by
  classical
  cases htruth : subject.truth world with
  | true =>
    rw [keys, decide_eq_true_iff]
    exact ⟨subject, h, rfl, htruth⟩
  | false =>
    rw [keys, decide_eq_false_iff_not]
    rintro ⟨other, hother, hkey, htrue⟩
    rw [Subject.key_injective hother h hkey, htruth] at htrue
    cases htrue

/-- In a world that respects what is known, a comparison of a parameter with a
text is read as it is. -/
theorem truth_ofMatch {world : World} (hrespects : world.Respects index region)
    {parameter : String} (hplain : PlainName parameter) (text : String) :
    (Reading.ofMatch index region parameter text).truth world.keys =
      (world.parameter parameter == text) := by
  have hlegible : (Subject.comparison parameter text).Legible := hplain
  have hfree : (Reading.free (.comparison parameter text)).truth world.keys =
      (world.parameter parameter == text) := world.keys_key hlegible
  have hdeclared : (parameter = "AWS::Region" → region = none) →
      (Reading.ofDeclared index parameter text).truth world.keys =
        (world.parameter parameter == text) := by
    intro hregion
    unfold Reading.ofDeclared
    split
    · next allowed hallowed =>
      split
      · exact hfree
      · next hnot =>
        refine (beq_eq_false_iff_ne.mpr fun he => hnot ?_).symm
        exact he ▸ hrespects.allowed parameter allowed hallowed hregion
    · exact hfree
  cases region with
  | none => exact hdeclared fun _ => rfl
  | some given =>
    rw [Reading.ofMatch]
    split
    · next he => rw [Reading.truth, he, hrespects.given given rfl]
    · next hne => exact hdeclared fun he => absurd he hne

/-- In a world that respects what is known, a comparison is read as it is. Whatever
is left open as a pair has its key, and the key its truth value. -/
theorem truth_ofOperands {world : World} (hrespects : world.Respects index region)
    {left right : Operand} (hleft : left.Legible) (hright : right.Legible) :
    (Reading.ofOperands index region left right).truth world.keys = world.equal left right := by
  have hpair : Reading.ofOperands index region left right = .free (.pair s(left, right)) →
      (Reading.ofOperands index region left right).truth world.keys =
        world.pair s(left, right) := by
    intro hfree
    rw [hfree]
    exact world.keys_key (Subject.legible_of_free hleft hright hfree)
  cases left with
  | literal first =>
    cases right with
    | literal second => rfl
    | ref name => exact truth_ofMatch hrespects hright first
    | other digest => exact hpair rfl
  | ref name =>
    cases right with
    | literal text => exact truth_ofMatch hrespects hleft text
    | ref second =>
      by_cases he : name = second
      · subst he
        rw [Reading.ofOperands, if_pos rfl, equal, beq_self_eq_true, Bool.true_or]
        rfl
      · rw [hpair (by rw [Reading.ofOperands, if_neg he]), equal, beq_false_of_ne he,
          Bool.false_or]
    | other digest => exact hpair rfl
  | other digest => cases right <;> exact hpair rfl

/-- The truth values of keys in a world give conditions the truth values that
they have there. -/
theorem truth_ofKeys {world : World} (hrespects : world.Respects index region)
    (hlegible : ∀ left right, index.Compares roots left right → left.Legible ∧ right.Legible)
    {name : String} (hname : index.LedFrom roots name) :
    index.truth (.ofKeys index region world.keys) name = world.truth index name := by
  refine ConditionIndex.truth_congr ?_ ?_ ?_ hname
  · funext digest
    have hunknown : (Subject.unknown digest).Legible := trivial
    exact world.keys_key hunknown
  · funext undefined
    have hundefined : (Subject.undefined undefined).Legible := trivial
    exact world.keys_key hundefined
  · intro left right hcompares
    obtain ⟨hleft, hright⟩ := hlegible left right hcompares
    exact truth_ofOperands hrespects hleft hright

/-- A world that respects what is known is a model, whichever atoms matter. -/
theorem model {world : World} {solver : Solver} (hrespects : world.Respects index region)
    (hsound : Solver.Sound index region roots solver)
    (hlegible : ∀ left right, index.Compares roots left right → left.Legible ∧ right.Legible)
    (numbers : List Nat) :
    Solver.Model index solver numbers world.parameter (solver.valuation world.keys) where
  comparison number _ parameter text hcompared := by
    obtain ⟨harises, hatom⟩ := hsound.exists_of_compared hcompared
    rw [Solver.valuation, hatom]
    exact world.keys_key (Subject.legible_of_arises hlegible harises)
  allowed number _ parameter text hcompared allowed hallowed :=
    hrespects.allowed parameter allowed hallowed (hsound.region_of_compared hcompared)

/-- Formulas that have the wanted truth values in a world are satisfiable. -/
theorem satisfiable {world : World} {solver : Solver} (hrespects : world.Respects index region)
    (hsound : Solver.Sound index region roots solver)
    (hlegible : ∀ left right, index.Compares roots left right → left.Legible ∧ right.Legible)
    {goals : List (Formula × Bool)}
    (hgoals : ∀ goal ∈ goals, goal.1.holds (solver.valuation world.keys) = goal.2) :
    solver.satisfiable index goals = true :=
  Solver.satisfiable_of_model hsound (model hrespects hsound hlegible _) hgoals

section Realisation

variable {solver : Solver} {values : String → String} {truth : Nat → Bool}

/-- The value of a parameter if it is allowed, and otherwise the first value
that is. -/
def admitted (index : ConditionIndex) (values : String → String) (parameter : String) : String :=
  match index.allowed? parameter with
  | some allowed =>
    if values parameter ∈ allowed then values parameter else allowed.headD ""
  | none => values parameter

/-- An allowed value is admitted as it is. -/
theorem admitted_of_mem {parameter : String}
    (h : ∀ allowed, index.allowed? parameter = some allowed → values parameter ∈ allowed) :
    admitted index values parameter = values parameter := by
  unfold admitted
  split
  · next allowed hallowed => exact if_pos (h allowed hallowed)
  · rfl

/-- What is admitted is allowed if anything is. -/
theorem admitted_mem {parameter : String} {allowed : List String}
    (hallowed : index.allowed? parameter = some allowed) (hne : allowed ≠ []) :
    admitted index values parameter ∈ allowed := by
  simp only [admitted, hallowed]
  split
  · next hmem => exact hmem
  · rw [List.headD_eq_head?_getD, List.head?_eq_some_head hne]
    exact List.head_mem hne

/-- The number of the atom about a subject. -/
def numberOf (solver : Solver) (subject : Subject) : Nat :=
  (solver.atoms.map Atom.key).idxOf subject.key

/-- Keys tell the numbers of atoms. -/
theorem numberOf_eq (hnodup : (solver.atoms.map Atom.key).Nodup) {number : Nat}
    {subject : Subject} (h : solver.atoms[number]? = some subject.atom) :
    numberOf solver subject = number := by
  have hkey : (solver.atoms.map Atom.key)[number]? = some subject.key := by
    rw [List.getElem?_map, h]
    rfl
  obtain ⟨hbound, hget⟩ := List.getElem?_eq_some_iff.mp hkey
  rw [numberOf, ← hget]
  exact hnodup.idxOf_getElem number hbound

/-- The world of a model: parameters have the values of the model where these
matter, and everything else has the truth value of its atom. -/
def ofModel (index : ConditionIndex) (region : Option String) (solver : Solver)
    (values : String → String) (truth : Nat → Bool) : World where
  parameter name :=
    if name = "AWS::Region" then region.getD (admitted index values name)
    else admitted index values name
  pair operands := truth (numberOf solver (.pair operands))
  unknown digest := truth (numberOf solver (.unknown digest))
  undefined name := truth (numberOf solver (.undefined name))

/-- Parameters have admitted values, unless the region is given. -/
theorem parameter_ofModel {parameter : String}
    (h : parameter = "AWS::Region" → region = none) :
    (ofModel index region solver values truth).parameter parameter =
      admitted index values parameter := by
  simp only [ofModel]
  split
  · next he => rw [h he, Option.getD_none]
  · rfl

/-- The world of a model respects what is known, if no parameter is left
without allowed values. -/
theorem respects_ofModel (hnonempty : ∀ parameter, index.allowed? parameter ≠ some []) :
    (ofModel index region solver values truth).Respects index region where
  given name hgiven := by simp only [ofModel, hgiven, if_pos, Option.getD_some]
  allowed parameter allowed hallowed hregion := by
    rw [parameter_ofModel hregion]
    exact admitted_mem hallowed fun hnil => hnonempty parameter (hnil ▸ hallowed)

/-- Atoms that matter have their truth values in the world of a model. -/
theorem valuation_ofModel (hsound : Solver.Sound index region roots solver)
    (hlegible : ∀ left right, index.Compares roots left right → left.Legible ∧ right.Legible)
    {numbers : List Nat} (hmodel : Solver.Model index solver numbers values truth)
    {number : Nat} (hnumber : number ∈ numbers) (hbound : number < solver.atoms.length) :
    solver.valuation (ofModel index region solver values truth).keys number = truth number := by
  obtain ⟨subject, harises, hsubject⟩ := hsound.arises _ (List.getElem_mem hbound)
  have hatom : solver.atoms[number]? = some subject.atom := by
    rw [List.getElem?_eq_getElem hbound, hsubject]
  have hkeys := (ofModel index region solver values truth).keys_key
    (Subject.legible_of_arises hlegible harises)
  rw [Solver.valuation, hatom]
  refine hkeys.trans ?_
  cases subject with
  | comparison parameter text =>
    have hcompared : solver.compared? number = some (parameter, text) := by
      rw [Solver.compared?, hatom]
      rfl
    have hvalue := admitted_of_mem (hmodel.allowed number hnumber parameter text hcompared)
    rw [Subject.truth, parameter_ofModel (hsound.region_of_compared hcompared), hvalue,
      hmodel.comparison number hnumber parameter text hcompared]
  | pair operands => exact congrArg truth (numberOf_eq hsound.nodup hatom)
  | unknown digest => exact congrArg truth (numberOf_eq hsound.nodup hatom)
  | undefined name => exact congrArg truth (numberOf_eq hsound.nodup hatom)

end Realisation

/-- Satisfiable formulas have the wanted truth values in some world. -/
theorem exists_of_satisfiable {solver : Solver}
    (hsound : Solver.Sound index region roots solver)
    (hlegible : ∀ left right, index.Compares roots left right → left.Legible ∧ right.Legible)
    (hnonempty : ∀ parameter, index.allowed? parameter ≠ some [])
    {goals : List (Formula × Bool)}
    (hbounded : ∀ goal ∈ goals, ∀ number ∈ goal.1.atoms, number < solver.atoms.length)
    (h : solver.satisfiable index goals = true) :
    ∃ world : World, world.Respects index region ∧
      ∀ goal ∈ goals, goal.1.holds (solver.valuation world.keys) = goal.2 := by
  obtain ⟨values, truth, hmodel, hgoals⟩ := Solver.exists_model_of_satisfiable hsound h
  refine ⟨ofModel index region solver values truth, respects_ofModel hnonempty, ?_⟩
  intro goal hgoal
  rw [← hgoals goal hgoal]
  refine Formula.holds_congr fun number hnumber => ?_
  have hrelevant := Solver.mem_relevantAtoms.mpr ⟨goal, hgoal, hnumber⟩
  exact valuation_ofModel hsound hlegible hmodel hrelevant (hbounded goal hgoal number hnumber)

end World

end StackTemplate
