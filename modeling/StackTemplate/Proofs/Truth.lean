import Mathlib.Data.List.Basic
import Mathlib.Data.List.Perm.Subperm
import Mathlib.Logic.Relation
import StackTemplate.Condition.Index

/-!
# Truth values of named conditions

Once comparisons, expressions that are not understood and names that are not
defined have truth values, every named condition that does not depend on
itself has one too. It is computed by following references. The names on the
way are different and defined, so there are no more of them than conditions.
-/

namespace StackTemplate

/-- What the leaves of condition expressions mean. -/
structure Interpretation where
  /-- Whether two operands are equal. -/
  equal : Operand → Operand → Bool
  /-- The truth value of the expression with a digest. -/
  unknown : String → Bool
  /-- The truth value of a name that is not defined. -/
  undefined : String → Bool

namespace ConditionExpr

/-- Expressions are built from comparisons, names and unknown truth values; a
connective comes with what is known of each operand. -/
@[induction_eliminator]
theorem operandInduction {motive : ConditionExpr → Prop}
    (equals : ∀ left right, motive (.equals left right))
    (and : ∀ operands, (∀ operand ∈ operands, motive operand) → motive (.and operands))
    (or : ∀ operands, (∀ operand ∈ operands, motive operand) → motive (.or operands))
    (not : ∀ operand, motive operand → motive (.not operand))
    (condition : ∀ name, motive (.condition name))
    (unknown : ∀ digest, motive (.unknown digest))
    (expr : ConditionExpr) : motive expr :=
  @ConditionExpr.rec motive (fun operands => ∀ operand ∈ operands, motive operand)
    equals and or not condition unknown
    (fun _ h => absurd h List.not_mem_nil)
    (fun _ _ hhead htail _ h => (List.mem_cons.mp h).elim (fun he => he ▸ hhead) (htail _))
    expr

mutual

/-- The truth value of an expression, given those of named conditions. -/
def holds (meaning : Interpretation) (named : String → Bool) : ConditionExpr → Bool
  | .equals left right => meaning.equal left right
  | .and operands => allHold meaning named operands
  | .or operands => anyHolds meaning named operands
  | .not operand => !holds meaning named operand
  | .condition name => named name
  | .unknown digest => meaning.unknown digest

/-- Whether all expressions hold. -/
def allHold (meaning : Interpretation) (named : String → Bool) : List ConditionExpr → Bool
  | [] => true
  | operand :: operands => holds meaning named operand && allHold meaning named operands

/-- Whether any expression holds. -/
def anyHolds (meaning : Interpretation) (named : String → Bool) : List ConditionExpr → Bool
  | [] => false
  | operand :: operands => holds meaning named operand || anyHolds meaning named operands

end

mutual

/-- The comparisons that an expression makes itself, in order. -/
def comparisons : ConditionExpr → List (Operand × Operand)
  | .equals left right => [(left, right)]
  | .and operands => allComparisons operands
  | .or operands => allComparisons operands
  | .not operand => comparisons operand
  | .condition _ => []
  | .unknown _ => []

/-- The comparisons that several expressions make themselves. -/
def allComparisons : List ConditionExpr → List (Operand × Operand)
  | [] => []
  | operand :: operands => comparisons operand ++ allComparisons operands

end

/-- Several expressions refer to what each of them refers to. -/
theorem mem_allReferences {name : String} {operands : List ConditionExpr} :
    name ∈ allReferences operands ↔ ∃ operand ∈ operands, name ∈ references operand := by
  induction operands with
  | nil => simp [allReferences]
  | cons operand operands ih => simp [allReferences, ih]

/-- Several expressions compare what each of them compares. -/
theorem mem_allComparisons {pair : Operand × Operand} {operands : List ConditionExpr} :
    pair ∈ allComparisons operands ↔ ∃ operand ∈ operands, pair ∈ comparisons operand := by
  induction operands with
  | nil => simp [allComparisons]
  | cons operand operands ih => simp [allComparisons, ih]

/-- What holds of everything that several expressions refer to holds of what each
of them refers to, and conversely. -/
theorem forall_allReferences {motive : String → Prop} {operands : List ConditionExpr} :
    (∀ name ∈ allReferences operands, motive name) ↔
      ∀ operand ∈ operands, ∀ name ∈ operand.references, motive name := by
  simp only [mem_allReferences]
  constructor
  · exact fun h operand hmem name hname => h name ⟨operand, hmem, hname⟩
  · rintro h name ⟨operand, hmem, hname⟩
    exact h operand hmem name hname

/-- What holds of everything that several expressions compare holds of what each
of them compares. -/
theorem forall_comparisons {motive : Operand × Operand → Prop} {operands : List ConditionExpr}
    (h : ∀ pair ∈ allComparisons operands, motive pair) :
    ∀ operand ∈ operands, ∀ pair ∈ operand.comparisons, motive pair :=
  fun operand hmem pair hpair => h pair (mem_allComparisons.mpr ⟨operand, hmem, hpair⟩)

section Congruence

variable {first second : Interpretation} {namedFirst namedSecond : String → Bool}

/-- Conjunctions agree if all their operands do. -/
theorem allHold_congr {operands : List ConditionExpr}
    (h : ∀ operand ∈ operands,
      holds first namedFirst operand = holds second namedSecond operand) :
    allHold first namedFirst operands = allHold second namedSecond operands := by
  induction operands with
  | nil => rfl
  | cons operand operands ih =>
    rw [allHold, allHold, h operand List.mem_cons_self,
      ih fun other hmem => h other (List.mem_cons_of_mem _ hmem)]

/-- Disjunctions agree if all their operands do. -/
theorem anyHolds_congr {operands : List ConditionExpr}
    (h : ∀ operand ∈ operands,
      holds first namedFirst operand = holds second namedSecond operand) :
    anyHolds first namedFirst operands = anyHolds second namedSecond operands := by
  induction operands with
  | nil => rfl
  | cons operand operands ih =>
    rw [anyHolds, anyHolds, h operand List.mem_cons_self,
      ih fun other hmem => h other (List.mem_cons_of_mem _ hmem)]

/-- The truth value of an expression depends only on its comparisons, on the
names it refers to and on unknown truth values. -/
theorem holds_congr (hunknown : first.unknown = second.unknown) {expr : ConditionExpr}
    (hequal : ∀ pair ∈ expr.comparisons, first.equal pair.1 pair.2 = second.equal pair.1 pair.2)
    (hnamed : ∀ name ∈ expr.references, namedFirst name = namedSecond name) :
    holds first namedFirst expr = holds second namedSecond expr := by
  induction expr with
  | equals left right => exact hequal (left, right) List.mem_cons_self
  | and operands ih =>
    exact allHold_congr fun operand hmem => ih operand hmem
      (forall_comparisons hequal operand hmem) (forall_allReferences.mp hnamed operand hmem)
  | or operands ih =>
    exact anyHolds_congr fun operand hmem => ih operand hmem
      (forall_comparisons hequal operand hmem) (forall_allReferences.mp hnamed operand hmem)
  | not operand ih => rw [holds, holds, ih hequal hnamed]
  | condition name => exact hnamed name List.mem_cons_self
  | unknown digest => rw [holds, holds, hunknown]

end Congruence

end ConditionExpr

namespace ConditionIndex

variable {index : ConditionIndex}

/-- A condition is defined in terms of another name. -/
def Refers (index : ConditionIndex) (name other : String) : Prop :=
  ∃ expr, index.get? name = some expr ∧ other ∈ expr.references

/-- Following references leads from one name to another. -/
def Leads (index : ConditionIndex) : String → String → Prop :=
  Relation.ReflTransGen index.Refers

/-- No reference that a name leads to comes back to where it started. -/
def Acyclic (index : ConditionIndex) (name : String) : Prop :=
  ∀ other, index.Leads name other → ¬Relation.TransGen index.Refers other other

/-- What an acyclic condition leads to is acyclic. -/
theorem Acyclic.of_leads {name other : String} (h : index.Acyclic name)
    (hleads : index.Leads name other) : index.Acyclic other :=
  fun last hlast => h last (hleads.trans hlast)

/-- What an acyclic condition refers to is acyclic. -/
theorem Acyclic.of_refers {name other : String} (h : index.Acyclic name)
    (hrefers : index.Refers name other) : index.Acyclic other :=
  h.of_leads (Relation.ReflTransGen.single hrefers)

/-- Names are acyclic if every reference goes down in rank. -/
theorem acyclic_of_rank (rank : String → Nat)
    (h : ∀ entry ∈ index.conditions, ∀ other ∈ entry.2.references, rank other < rank entry.1)
    (name : String) : index.Acyclic name := by
  have hstep : ∀ first second, index.Refers first second → rank second < rank first := by
    rintro first second ⟨expr, hexpr, hother⟩
    exact h (first, expr) (Entries.mem_of_get? hexpr) second hother
  have hpath : ∀ first second, Relation.TransGen index.Refers first second →
      rank second < rank first := by
    intro first second hpath
    induction hpath with
    | single hrefers => exact hstep _ _ hrefers
    | tail _ hrefers ih => exact Nat.lt_trans (hstep _ _ hrefers) ih
  exact fun other _ hcycle => Nat.lt_irrefl _ (hpath other other hcycle)

/-- The names that are being looked at when a name is met: they are different,
they are defined, and each leads to the name. -/
structure Trail (index : ConditionIndex) (stack : List String) (name : String) : Prop where
  /-- No name is there twice. -/
  nodup : stack.Nodup
  /-- All names are defined. -/
  defined : ∀ other ∈ stack, other ∈ index.names
  /-- All names lead to the name that is met. -/
  leads : ∀ other ∈ stack, Relation.TransGen index.Refers other name

/-- At first nothing is being looked at. -/
theorem Trail.nil (name : String) : index.Trail [] name :=
  ⟨List.nodup_nil, fun _ h => absurd h List.not_mem_nil, fun _ h => absurd h List.not_mem_nil⟩

/-- An acyclic condition is never met while it is being looked at. -/
theorem Trail.notMem {stack : List String} {name : String} (htrail : index.Trail stack name)
    (hacyclic : index.Acyclic name) : name ∉ stack :=
  fun hmem => hacyclic name Relation.ReflTransGen.refl (htrail.leads name hmem)

/-- A name with an expression is among the defined ones. -/
theorem mem_names_of_get? {name : String} {expr : ConditionExpr}
    (h : index.get? name = some expr) : name ∈ index.names := by
  refine Entries.contains_iff_mem_keys.mp ?_
  rw [Entries.contains_eq_isSome_get?]
  exact Option.isSome_iff_exists.mpr ⟨expr, h⟩

/-- Looking at an acyclic condition puts it on the trail of what it refers to. -/
theorem Trail.push {stack : List String} {name other : String} {expr : ConditionExpr}
    (htrail : index.Trail stack name) (hacyclic : index.Acyclic name)
    (hexpr : index.get? name = some expr) (hother : other ∈ expr.references) :
    index.Trail (name :: stack) other where
  nodup := List.nodup_cons.mpr ⟨htrail.notMem hacyclic, htrail.nodup⟩
  defined := List.forall_mem_cons.mpr ⟨mem_names_of_get? hexpr, htrail.defined⟩
  leads := by
    have hrefers : index.Refers name other := ⟨expr, hexpr, hother⟩
    exact List.forall_mem_cons.mpr ⟨Relation.TransGen.single hrefers,
      fun earlier hmem => (htrail.leads earlier hmem).tail hrefers⟩

/-- There is room on the trail for every acyclic condition that is defined. -/
theorem Trail.length_lt {stack : List String} {name : String} {expr : ConditionExpr}
    (htrail : index.Trail stack name) (hacyclic : index.Acyclic name)
    (hexpr : index.get? name = some expr) : stack.length < index.conditions.length := by
  have hnodup : (name :: stack).Nodup :=
    List.nodup_cons.mpr ⟨htrail.notMem hacyclic, htrail.nodup⟩
  have hsub : name :: stack ⊆ index.names := by
    intro other hmem
    rcases List.mem_cons.mp hmem with rfl | hmem
    · exact mem_names_of_get? hexpr
    · exact htrail.defined other hmem
  have hlength := (List.subperm_of_subset hnodup hsub).length_le
  rw [names, Entries.keys, List.length_map, List.length_cons] at hlength
  exact hlength

/-- The truth value of a name, found by following at most `height` references.
Conditions that would need more are given up as false. -/
def truthWithin (index : ConditionIndex) (meaning : Interpretation) :
    (height : Nat) → (name : String) → Bool
  | 0, name => (index.get? name).isNone && meaning.undefined name
  | height + 1, name =>
    match index.get? name with
    | none => meaning.undefined name
    | some expr => expr.holds meaning (truthWithin index meaning height)

/-- The truth value of a name. It is meant for acyclic conditions, which never
need more references than there are conditions. -/
def truth (index : ConditionIndex) (meaning : Interpretation) (name : String) : Bool :=
  index.truthWithin meaning index.conditions.length name

/-- A name that is not defined has the truth value it is given. -/
theorem truthWithin_of_undefined {name : String} (h : index.get? name = none)
    (meaning : Interpretation) (height : Nat) :
    index.truthWithin meaning height name = meaning.undefined name := by
  cases height with
  | zero => rw [truthWithin, h, Option.isNone_none, Bool.true_and]
  | succ height => rw [truthWithin, h]

/-- A defined name has the truth value of its expression. -/
theorem truthWithin_of_defined {name : String} {expr : ConditionExpr}
    (h : index.get? name = some expr) (meaning : Interpretation) (height : Nat) :
    index.truthWithin meaning (height + 1) name =
      expr.holds meaning (index.truthWithin meaning height) := by
  rw [truthWithin, h]

/-- The truth value of an acyclic condition does not depend on the bound, as
long as the bound leaves room for the names that are not on the trail. -/
theorem truthWithin_stable (meaning : Interpretation) {first second : Nat} {stack : List String}
    {name : String} (htrail : index.Trail stack name) (hacyclic : index.Acyclic name)
    (hfirst : index.conditions.length ≤ first + stack.length)
    (hsecond : index.conditions.length ≤ second + stack.length) :
    index.truthWithin meaning first name = index.truthWithin meaning second name := by
  induction first generalizing second stack name with
  | zero =>
    cases hexpr : index.get? name with
    | none => rw [truthWithin_of_undefined hexpr, truthWithin_of_undefined hexpr]
    | some expr =>
      have hroom := htrail.length_lt hacyclic hexpr
      omega
  | succ first ih =>
    cases hexpr : index.get? name with
    | none => rw [truthWithin_of_undefined hexpr, truthWithin_of_undefined hexpr]
    | some expr =>
      have hroom := htrail.length_lt hacyclic hexpr
      obtain ⟨second, rfl⟩ : ∃ n, second = n + 1 := ⟨second - 1, by omega⟩
      rw [truthWithin_of_defined hexpr, truthWithin_of_defined hexpr]
      refine ConditionExpr.holds_congr rfl (fun _ _ => rfl) fun other hother => ?_
      refine ih (htrail.push hacyclic hexpr hother) (hacyclic.of_refers ⟨expr, hexpr, hother⟩) ?_ ?_
      · rw [List.length_cons]
        omega
      · rw [List.length_cons]
        omega

/-- A name that is not defined has the truth value it is given. -/
theorem truth_of_undefined {name : String} (h : index.get? name = none)
    (meaning : Interpretation) : index.truth meaning name = meaning.undefined name :=
  truthWithin_of_undefined h meaning _

/-- An acyclic condition has the truth value of its expression, in which all
names have their truth values. -/
theorem truth_of_defined {name : String} {expr : ConditionExpr}
    (hexpr : index.get? name = some expr) (hacyclic : index.Acyclic name)
    (meaning : Interpretation) :
    index.truth meaning name = expr.holds meaning (index.truth meaning) := by
  have hroom := (Trail.nil name).length_lt hacyclic hexpr
  obtain ⟨height, hheight⟩ : ∃ n, index.conditions.length = n + 1 :=
    ⟨index.conditions.length - 1, by omega⟩
  rw [truth, hheight, truthWithin_of_defined hexpr]
  refine ConditionExpr.holds_congr rfl (fun _ _ => rfl) fun other hother => ?_
  have htrail := (Trail.nil name).push hacyclic hexpr hother
  refine truthWithin_stable meaning htrail (hacyclic.of_refers ⟨expr, hexpr, hother⟩) ?_ ?_
  · rw [List.length_singleton]
    omega
  · omega

/-- A name that some of the given names lead to. -/
def LedFrom (index : ConditionIndex) (roots : String → Prop) (name : String) : Prop :=
  ∃ root, roots root ∧ index.Leads root name

/-- The given names lead to themselves. -/
theorem LedFrom.root {roots : String → Prop} {name : String} (h : roots name) :
    index.LedFrom roots name := ⟨name, h, Relation.ReflTransGen.refl⟩

/-- What the given names lead to refers to more of it. -/
theorem LedFrom.tail {roots : String → Prop} {name other : String}
    (h : index.LedFrom roots name) (hrefers : index.Refers name other) :
    index.LedFrom roots other := by
  obtain ⟨root, hroot, hleads⟩ := h
  exact ⟨root, hroot, hleads.tail hrefers⟩

/-- The given names lead to a condition that compares two operands. -/
def Compares (index : ConditionIndex) (roots : String → Prop) (left right : Operand) : Prop :=
  ∃ name expr, index.LedFrom roots name ∧ index.get? name = some expr ∧
    (left, right) ∈ expr.comparisons

/-- Two interpretations that agree wherever the given names lead give the same
truth values there. -/
theorem truth_congr {first second : Interpretation} {roots : String → Prop}
    (hunknown : first.unknown = second.unknown) (hundefined : first.undefined = second.undefined)
    (hequal : ∀ left right, index.Compares roots left right →
      first.equal left right = second.equal left right)
    {name : String} (hname : index.LedFrom roots name) :
    index.truth first name = index.truth second name := by
  unfold truth
  generalize index.conditions.length = height
  induction height generalizing name with
  | zero => rw [truthWithin, truthWithin, hundefined]
  | succ height ih =>
    cases hexpr : index.get? name with
    | none => rw [truthWithin_of_undefined hexpr, truthWithin_of_undefined hexpr, hundefined]
    | some expr =>
      rw [truthWithin_of_defined hexpr, truthWithin_of_defined hexpr]
      refine ConditionExpr.holds_congr hunknown ?_ ?_
      · exact fun pair hpair => hequal pair.1 pair.2 ⟨name, expr, hname, hexpr, hpair⟩
      · exact fun other hother => ih (hname.tail ⟨expr, hexpr, hother⟩)

end ConditionIndex

end StackTemplate
