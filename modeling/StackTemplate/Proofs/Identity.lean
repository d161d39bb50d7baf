import StackTemplate.Proofs.Compilation
import StackTemplate.Text.Split

/-!
# What keys identify

Keys are texts put together from names, texts and digests around an equals
sign. They identify what an atom is about as long as names of parameters and
digests hold no equals sign and names do not look like the beginning of a key
of an operand. Digests of documents never hold one.
-/

namespace StackTemplate

/-- A name of a parameter that cannot be mistaken inside a key. -/
structure PlainName (name : String) : Prop where
  /-- It has no equals sign. -/
  noEqualsSign : '=' ∉ name.toList
  /-- It does not look like the key of a reference. -/
  noReference : Text.startsWith name "ref:" = false
  /-- It does not look like the key of an expression. -/
  noExpression : Text.startsWith name "expr:" = false

instance (name : String) : Decidable (PlainName name) :=
  decidable_of_iff ('=' ∉ name.toList ∧ Text.startsWith name "ref:" = false ∧
      Text.startsWith name "expr:" = false)
    ⟨fun ⟨hsign, hreference, hexpression⟩ => ⟨hsign, hreference, hexpression⟩,
      fun h => ⟨h.noEqualsSign, h.noReference, h.noExpression⟩⟩

/-- An operand that has a plain name if it is a parameter. -/
def Operand.Plain : Operand → Prop
  | .ref name => PlainName name
  | .literal _ => True
  | .other _ => True

instance : DecidablePred Operand.Plain
  | .ref name => inferInstanceAs (Decidable (PlainName name))
  | .literal _ => inferInstanceAs (Decidable True)
  | .other _ => inferInstanceAs (Decidable True)

/-- An operand whose key can be told apart from others inside a key. -/
def Operand.Legible : Operand → Prop
  | .ref name => PlainName name
  | .literal _ => True
  | .other digest => '=' ∉ digest.toList

/-- What stands before the first equals sign is known, and so is what stands
after it. -/
theorem append_equalsSign_inj {before before' after after' : List Char}
    (hbefore : '=' ∉ before) (hbefore' : '=' ∉ before')
    (h : before ++ '=' :: after = before' ++ '=' :: after') : before = before' ∧ after = after' := by
  rcases List.append_eq_append_iff.mp h with ⟨middle, hlong, hrest⟩ | ⟨middle, hlong, hrest⟩
  · cases middle with
    | nil =>
      rw [List.append_nil] at hlong
      exact ⟨hlong.symm, List.tail_eq_of_cons_eq hrest⟩
    | cons sign middle =>
      have hsign : '=' = sign := List.head_eq_of_cons_eq hrest
      exact absurd (by rw [hlong, hsign]; simp) hbefore'
  · cases middle with
    | nil =>
      rw [List.append_nil] at hlong
      exact ⟨hlong, (List.tail_eq_of_cons_eq hrest).symm⟩
    | cons sign middle =>
      have hsign : '=' = sign := List.head_eq_of_cons_eq hrest
      exact absurd (by rw [hlong, hsign]; simp) hbefore

namespace Operand

/-- The characters of an operand's key. -/
theorem toList_key (operand : Operand) :
    operand.key.toList = match operand with
      | .ref name => ['r', 'e', 'f', ':'] ++ name.toList
      | .literal text => ['l', 'i', 't', 'e', 'r', 'a', 'l', ':'] ++ text.toList
      | .other digest => ['e', 'x', 'p', 'r', ':'] ++ digest.toList := by
  cases operand <;> rw [key, String.toList_append] <;> rfl

/-- Different operands have different keys. -/
theorem key_injective {first second : Operand} (h : first.key = second.key) : first = second := by
  have hlist := congrArg String.toList h
  rw [toList_key, toList_key] at hlist
  cases first <;> cases second <;> simp_all [String.toList_inj]

/-- An operand that may come first in the key of a pair: its own key has no
equals sign. -/
def OpensKey : Operand → Prop
  | .ref name => PlainName name
  | .literal _ => False
  | .other digest => '=' ∉ digest.toList

/-- The key of an operand that comes first has no equals sign. -/
theorem OpensKey.noEqualsSign {operand : Operand} (h : operand.OpensKey) :
    '=' ∉ operand.key.toList := by
  rw [toList_key]
  cases operand with
  | ref name =>
    have hname : '=' ∉ name.toList := PlainName.noEqualsSign h
    simp [hname]
  | literal text => exact h.elim
  | other digest =>
    have hdigest : '=' ∉ digest.toList := h
    simp [hdigest]

/-- A plain name is not the key of an operand that comes first. -/
theorem OpensKey.ne_plainName {operand : Operand} (h : operand.OpensKey) {name : String}
    (hname : PlainName name) : operand.key.toList ≠ name.toList := by
  intro he
  rw [toList_key] at he
  cases operand with
  | ref other =>
    have hstart := hname.noReference
    rw [Text.startsWith, ← he] at hstart
    simp at hstart
  | literal text => exact h
  | other digest =>
    have hstart := hname.noExpression
    rw [Text.startsWith, ← he] at hstart
    simp at hstart

/-- The key of an expression comes before those of other operands. -/
theorem key_other_lt (digest : String) {operand : Operand}
    (h : ∀ other, operand ≠ .other other) : (other digest).key < operand.key := by
  change (other digest).key.toList < operand.key.toList
  rw [toList_key, toList_key]
  cases operand with
  | ref name => exact List.cons_lt_cons_iff.mpr (.inl (by decide))
  | literal text => exact List.cons_lt_cons_iff.mpr (.inl (by decide))
  | other digest => exact absurd rfl (h digest)

end Operand

namespace Subject

/-- A subject whose key can be told apart from others. -/
def Legible : Subject → Prop
  | .comparison parameter _ => PlainName parameter
  | .pair operands => ∃ first second : Operand, operands = s(first, second) ∧
      first.OpensKey ∧ ¬second.key < first.key
  | .unknown _ => True
  | .undefined _ => True

/-- The characters of the key of a pair whose operands are in order. -/
theorem toList_key_pair {first second : Operand} (h : ¬second.key < first.key) :
    (pair s(first, second)).key.toList =
      ['e', 'q', 'u', 'a', 'l', 's', ':'] ++ (first.key.toList ++ '=' :: second.key.toList) := by
  rw [key, Sym2.lift_mk]
  dsimp only
  rw [Solver.pairKey, if_neg h, String.toList_append, String.toList_append, String.toList_append]
  simp

/-- The characters of the key of a comparison. -/
theorem toList_key_comparison (parameter text : String) :
    (comparison parameter text).key.toList =
      ['e', 'q', 'u', 'a', 'l', 's', ':'] ++ (parameter.toList ++ '=' :: text.toList) := by
  rw [key, String.toList_append, String.toList_append, String.toList_append]
  simp

/-- The characters of the key of an expression that is not understood. -/
theorem toList_key_unknown (digest : String) :
    (unknown digest).key.toList = ['o', 'p', 'a', 'q', 'u', 'e', ':'] ++ digest.toList := by
  rw [key, String.toList_append]
  rfl

/-- The characters of the key of a name that is not defined. -/
theorem toList_key_undefined (name : String) :
    (undefined name).key.toList =
      ['c', 'o', 'n', 'd', 'i', 't', 'i', 'o', 'n', ':'] ++ name.toList := by
  rw [key, String.toList_append]
  rfl

/-- A comparison of a parameter and a pair have different keys. -/
theorem key_comparison_ne_pair {parameter text : String} {operands : Sym2 Operand}
    (hparameter : PlainName parameter) (hpair : (pair operands).Legible) :
    (comparison parameter text).key ≠ (pair operands).key := by
  obtain ⟨first, second, rfl, hopens, horder⟩ := hpair
  intro h
  have hlist := congrArg String.toList h
  rw [toList_key_comparison, toList_key_pair horder, List.append_cancel_left_eq] at hlist
  have hname := (append_equalsSign_inj hparameter.noEqualsSign hopens.noEqualsSign hlist).1
  exact hopens.ne_plainName hparameter hname.symm

/-- The character that keys of a kind start with. -/
def initial : Subject → Char
  | .comparison _ _ => 'e'
  | .pair _ => 'e'
  | .unknown _ => 'o'
  | .undefined _ => 'c'

/-- Keys start with the character of their kind. -/
theorem head?_key {subject : Subject} (h : subject.Legible) :
    subject.key.toList.head? = some subject.initial := by
  cases subject with
  | comparison parameter text => simp [toList_key_comparison, initial]
  | pair operands =>
    obtain ⟨left, right, rfl, -, horder⟩ := h
    simp [toList_key_pair horder, initial]
  | unknown digest => simp [toList_key_unknown, initial]
  | undefined name => simp [toList_key_undefined, initial]

/-- Subjects that can be told apart have different keys. -/
theorem key_injective {first second : Subject} (hfirst : first.Legible) (hsecond : second.Legible)
    (h : first.key = second.key) : first = second := by
  have hlist := congrArg String.toList h
  have hinitial : first.initial = second.initial := by
    rw [← Option.some.injEq, ← head?_key hfirst, ← head?_key hsecond, h]
  cases first with
  | comparison parameter text =>
    cases second with
    | comparison parameter' text' =>
      rw [toList_key_comparison, toList_key_comparison, List.append_cancel_left_eq] at hlist
      obtain ⟨hparameter, htext⟩ :=
        append_equalsSign_inj (PlainName.noEqualsSign hfirst) (PlainName.noEqualsSign hsecond) hlist
      rw [String.toList_inj.mp hparameter, String.toList_inj.mp htext]
    | pair operands => exact absurd h (key_comparison_ne_pair hfirst hsecond)
    | unknown digest => simp [initial] at hinitial
    | undefined name => simp [initial] at hinitial
  | pair operands =>
    cases second with
    | comparison parameter text => exact absurd h.symm (key_comparison_ne_pair hsecond hfirst)
    | pair operands' =>
      obtain ⟨left, right, rfl, hopens, horder⟩ := hfirst
      obtain ⟨left', right', rfl, hopens', horder'⟩ := hsecond
      rw [toList_key_pair horder, toList_key_pair horder', List.append_cancel_left_eq] at hlist
      obtain ⟨hleft, hright⟩ :=
        append_equalsSign_inj hopens.noEqualsSign hopens'.noEqualsSign hlist
      rw [Operand.key_injective (String.toList_inj.mp hleft),
        Operand.key_injective (String.toList_inj.mp hright)]
    | unknown digest => simp [initial] at hinitial
    | undefined name => simp [initial] at hinitial
  | unknown digest =>
    cases second with
    | unknown digest' =>
      rw [toList_key_unknown, toList_key_unknown, List.append_cancel_left_eq] at hlist
      rw [String.toList_inj.mp hlist]
    | _ => simp [initial] at hinitial
  | undefined name =>
    cases second with
    | undefined name' =>
      rw [toList_key_undefined, toList_key_undefined, List.append_cancel_left_eq] at hlist
      rw [String.toList_inj.mp hlist]
    | _ => simp [initial] at hinitial

/-- A pair of operands that may both come first can be told apart. -/
theorem legible_pair_of_opensKey {left right : Operand} (hleft : left.OpensKey)
    (hright : right.OpensKey) : (pair s(left, right)).Legible := by
  by_cases h : right.key < left.key
  · exact ⟨right, left, Sym2.eq_swap, hright, h.asymm⟩
  · exact ⟨left, right, rfl, hleft, h⟩

/-- A pair with an expression can be told apart: the expression or another one
comes first. -/
theorem legible_pair_of_other {digest : String} (hdigest : '=' ∉ digest.toList)
    {operand : Operand} (h : operand.Legible) : (pair s(.other digest, operand)).Legible := by
  cases operand with
  | ref name =>
    exact ⟨.other digest, .ref name, rfl, hdigest, (Operand.key_other_lt digest (by simp)).asymm⟩
  | literal text =>
    exact ⟨.other digest, .literal text, rfl, hdigest,
      (Operand.key_other_lt digest (by simp)).asymm⟩
  | other second => exact legible_pair_of_opensKey hdigest h

/-- What a comparison of operands that can be told apart is about can be told
apart. -/
theorem legible_of_free {index : ConditionIndex} {region : Option String} {left right : Operand}
    (hleft : left.Legible) (hright : right.Legible) {subject : Subject}
    (hfree : Reading.ofOperands index region left right = .free subject) : subject.Legible := by
  cases left with
  | literal first =>
    cases right with
    | literal second => cases hfree
    | ref name =>
      obtain ⟨rfl, -⟩ := Reading.ofMatch_eq_free hfree
      exact hright
    | other digest =>
      cases hfree
      rw [Sym2.eq_swap]
      exact legible_pair_of_other hright hleft
  | ref name =>
    cases right with
    | literal text =>
      obtain ⟨rfl, -⟩ := Reading.ofMatch_eq_free hfree
      exact hleft
    | ref second =>
      rw [Reading.ofOperands] at hfree
      split at hfree
      · cases hfree
      · cases hfree
        exact legible_pair_of_opensKey hleft hright
    | other digest =>
      cases hfree
      rw [Sym2.eq_swap]
      exact legible_pair_of_other hright hleft
  | other digest =>
    cases right <;> cases hfree <;> exact legible_pair_of_other hleft hright

/-- What arises from operands that can be told apart can be told apart. -/
theorem legible_of_arises {index : ConditionIndex} {region : Option String}
    {roots : String → Prop}
    (hlegible : ∀ left right, index.Compares roots left right → left.Legible ∧ right.Legible)
    {subject : Subject} (h : index.Arises region roots subject) : subject.Legible := by
  cases h with
  | unknown digest => trivial
  | undefined name => trivial
  | @operands left right _ hcompares hfree =>
    obtain ⟨hleft, hright⟩ := hlegible left right hcompares
    exact legible_of_free hleft hright hfree

end Subject

/-- A digest has no equals sign. -/
theorem Digest.notMem_hex (text : String) : '=' ∉ (Digest.hex text).toList := by
  rw [Digest.hex, String.toList_ofList]
  simp [Digest.hexWord, Digest.hexDigit]

/-- An operand read from a document can be told apart if its name can. -/
theorem Operand.legible_ofValue {value : Value} (h : (Operand.ofValue value).Plain) :
    (Operand.ofValue value).Legible := by
  cases hoperand : Operand.ofValue value with
  | ref name =>
    rw [hoperand] at h
    exact h
  | literal text => trivial
  | other digest =>
    unfold Operand.ofValue at hoperand
    split at hoperand
    · cases hoperand
    · split at hoperand
      · cases hoperand
      · cases hoperand
        exact Digest.notMem_hex _

/-- Expressions read from documents compare operands read from documents. -/
theorem ConditionExpr.exists_of_mem_comparisons_ofValue (value : Value) :
    ∀ pair ∈ (ConditionExpr.ofValue value).comparisons,
      ∃ left right, pair = (Operand.ofValue left, Operand.ofValue right) := by
  refine ConditionExpr.ofValue.induct
    (fun value => ∀ pair ∈ (ConditionExpr.ofValue value).comparisons,
      ∃ left right, pair = (Operand.ofValue left, Operand.ofValue right))
    (fun values => ∀ pair ∈ allComparisons (ConditionExpr.ofValues values),
      ∃ left right, pair = (Operand.ofValue left, Operand.ofValue right))
    ?_ ?_ ?_ ?_ ?_ ?_ ?_ ?_ value
  · intro left right pair hpair
    rw [ofValue, comparisons, List.mem_singleton] at hpair
    exact ⟨left, right, hpair⟩
  · intro first others hfirst hothers pair hpair
    rw [ofValue, comparisons, allComparisons] at hpair
    exact (List.mem_append.mp hpair).elim (hfirst pair) (hothers pair)
  · intro first others hfirst hothers pair hpair
    rw [ofValue, comparisons, allComparisons] at hpair
    exact (List.mem_append.mp hpair).elim (hfirst pair) (hothers pair)
  · intro operand hoperand pair hpair
    rw [ofValue, comparisons] at hpair
    exact hoperand pair hpair
  · intro name pair hpair
    rw [ofValue, comparisons] at hpair
    exact absurd hpair List.not_mem_nil
  · intro value h₁ h₂ h₃ h₄ h₅ pair hpair
    rw [ofValue.eq_6 value h₁ h₂ h₃ h₄ h₅, comparisons] at hpair
    exact absurd hpair List.not_mem_nil
  · intro pair hpair
    rw [ofValues, allComparisons] at hpair
    exact absurd hpair List.not_mem_nil
  · intro value values hvalue hvalues pair hpair
    rw [ofValues, allComparisons] at hpair
    exact (List.mem_append.mp hpair).elim (hvalue pair) (hvalues pair)

namespace ConditionIndex

/-- All parameters that the conditions compare have plain names. -/
def PlainNames (index : ConditionIndex) : Prop :=
  ∀ entry ∈ index.conditions, ∀ pair ∈ entry.2.comparisons, pair.1.Plain ∧ pair.2.Plain

instance (index : ConditionIndex) : Decidable index.PlainNames :=
  inferInstanceAs (Decidable (∀ entry ∈ index.conditions, ∀ pair ∈ entry.2.comparisons,
    pair.1.Plain ∧ pair.2.Plain))

/-- What the conditions compare has plain names, wherever one starts. -/
theorem PlainNames.of_compares {index : ConditionIndex} (hplain : index.PlainNames)
    {roots : String → Prop} {left right : Operand} (h : index.Compares roots left right) :
    left.Plain ∧ right.Plain := by
  obtain ⟨name, expr, -, hexpr, hpair⟩ := h
  exact hplain (name, expr) (Entries.mem_of_get? hexpr) (left, right) hpair

/-- The operands that a template's conditions compare can be told apart if all
parameters have plain names. -/
theorem legible_ofTemplate {template : Template} {settings : Settings}
    (hplain : (ofTemplate template settings).PlainNames) {roots : String → Prop}
    {left right : Operand} (h : (ofTemplate template settings).Compares roots left right) :
    left.Legible ∧ right.Legible := by
  obtain ⟨hleft, hright⟩ := hplain.of_compares h
  obtain ⟨name, expr, -, hexpr, hpair⟩ := h
  obtain ⟨entry, -, hentry⟩ := List.mem_map.mp (Entries.mem_of_get? hexpr)
  obtain ⟨-, rfl⟩ := Prod.mk.inj hentry
  obtain ⟨first, second, hoperands⟩ :=
    ConditionExpr.exists_of_mem_comparisons_ofValue entry.2 (left, right) hpair
  obtain ⟨rfl, rfl⟩ := Prod.mk.inj hoperands
  exact ⟨Operand.legible_ofValue hleft, Operand.legible_ofValue hright⟩

end ConditionIndex

end StackTemplate
