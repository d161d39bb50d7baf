import StackTemplate.Decimal.Layout
import StackTemplate.Entries

/-!
# Document values

A document is a tree of mappings, lists and scalars. Mappings keep the order of
their keys. Whole numbers are 64-bit integers, all other numbers are binary
floating-point numbers, and the two kinds are never equal to each other.
-/

namespace StackTemplate

/-- A document, or a part of one. -/
inductive Value where
  /-- The missing value. -/
  | null
  /-- A truth value. -/
  | boolean (truth : Bool)
  /-- A whole number. -/
  | integer (number : Int64)
  /-- A finite number that is no whole number of 64 bits. -/
  | decimal (number : Float)
  /-- A text. -/
  | string (text : String)
  /-- A list. -/
  | array (items : List Value)
  /-- A mapping, with its entries in the order of their keys' first writing. -/
  | object (entries : List (String × Value))
  deriving Inhabited

namespace Value

/-- The text, if the value is one. -/
def string? : Value → Option String
  | .string text => some text
  | _ => none

/-- The items, if the value is a list. -/
def items? : Value → Option (List Value)
  | .array items => some items
  | _ => none

/-- The entries, if the value is a mapping. -/
def entries? : Value → Option (List (String × Value))
  | .object entries => some entries
  | _ => none

/-- The value under a key, if the value is a mapping that has it. -/
def get? (value : Value) (key : String) : Option Value :=
  match value with
  | .object entries => Entries.get? key entries
  | _ => none

/-- Key and value of a mapping with exactly one entry. -/
def singleEntry? : Value → Option (String × Value)
  | .object [entry] => some entry
  | _ => none

/-- Numbers inside texts are written positionally, with no more than the
digits they need. -/
def scalarLayout : Decimal.Layout := ⟨.up, none, false, false⟩

/-- The text of a scalar. Lists, mappings and the missing value have none. -/
def scalarText? : Value → Option String
  | .boolean true => some "true"
  | .boolean false => some "false"
  | .integer number => some (String.ofList (Text.integer number.toInt))
  | .decimal number => some (String.ofList (scalarLayout.write number))
  | .string text => some text
  | .null => none
  | .array _ => none
  | .object _ => none

mutual

/-- Equality of documents, in which the order of keys does not matter. Zero
equals its negative. -/
def agrees : Value → Value → Bool
  | .null, .null => true
  | .boolean a, .boolean b => a == b
  | .integer a, .integer b => a == b
  | .decimal a, .decimal b => a == b
  | .string a, .string b => a == b
  | .array xs, .array ys => itemsAgree xs ys
  | .object xs, .object ys => xs.length == ys.length && entriesWithin xs ys
  | _, _ => false

/-- Equality of lists of documents, item by item. -/
def itemsAgree : List Value → List Value → Bool
  | [], [] => true
  | x :: xs, y :: ys => agrees x y && itemsAgree xs ys
  | _, _ => false

/-- Whether every entry has an equal one under the same key on the other side. -/
def entriesWithin : List (String × Value) → List (String × Value) → Bool
  | [], _ => true
  | (k, x) :: xs, ys =>
    (match Entries.get? k ys with
      | some y => agrees x y
      | none => false) && entriesWithin xs ys

end

instance : BEq Value := ⟨agrees⟩

mutual

/-- The greatest number of lists and mappings around any part of a value,
the value itself included. -/
def depth : Value → Nat
  | .array items => itemsDepth items + 1
  | .object entries => entriesDepth entries + 1
  | _ => 0

/-- The greatest depth of an item. -/
def itemsDepth : List Value → Nat
  | [] => 0
  | x :: xs => max (depth x) (itemsDepth xs)

/-- The greatest depth of an entry's value. -/
def entriesDepth : List (String × Value) → Nat
  | [] => 0
  | (_, x) :: xs => max (depth x) (entriesDepth xs)

end

mutual

/-- Whether the keys of every mapping inside are distinct. -/
def WellFormed : Value → Prop
  | .array items => itemsWellFormed items
  | .object entries => Entries.Distinct entries ∧ entriesWellFormed entries
  | _ => True

/-- Whether the keys of every mapping inside the items are distinct. -/
def itemsWellFormed : List Value → Prop
  | [] => True
  | x :: xs => WellFormed x ∧ itemsWellFormed xs

/-- Whether the keys of every mapping inside the entries' values are distinct. -/
def entriesWellFormed : List (String × Value) → Prop
  | [] => True
  | (_, x) :: xs => WellFormed x ∧ entriesWellFormed xs

end

end Value

end StackTemplate
