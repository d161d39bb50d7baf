import StackTemplate.Decimal.Numeral
import StackTemplate.Value.Basic

/-!
# JSON texts as trees

A tree keeps what a text says and a document does not: the spelling of its
numbers, every entry of a mapping, repeated keys included, and that an escape in
a text spells half a character. A tree denotes a document unless it is nested too
deeply, holds a number that overflows or spells half a character.
-/

namespace StackTemplate.Json

/-- A number as it is spelled. -/
structure Number where
  /-- Whether there is a minus sign. -/
  negative : Bool
  /-- The digits before the point. -/
  integral : List Char
  /-- The digits after the point; none without a point. -/
  fraction : List Char
  /-- The number after the exponent mark, if there is one. -/
  exponent : Option Int

/-- Whether neither a point nor an exponent is spelled. -/
def Number.isWhole (n : Number) : Bool := n.fraction.isEmpty && n.exponent.isNone

/-- The number that the integral digits denote. -/
def Number.integralValue (n : Number) : Nat := Nat.ofDigitChars 10 n.integral 0

/-- The nearest binary number, if there is a finite one. -/
def Number.toFloat? (n : Number) : Option Float :=
  (Decimal.Numeral.ofDigits n.negative n.integral n.fraction (n.exponent.getD 0)).toFloat?

/-- The whole number of 64 bits that is spelled. A negative zero is none. -/
def Number.toInt64? (n : Number) : Option Int64 :=
  let magnitude := n.integralValue
  if !n.isWhole then none
  else if n.negative then
    if 0 < magnitude ∧ magnitude ≤ 0x8000000000000000 then some (Int64.ofInt (-magnitude)) else none
  else if magnitude < 0x8000000000000000 then some (Int64.ofInt magnitude)
  else none

/-- The document of a number: a whole one where possible. Numbers beyond the
largest binary one have none. -/
def Number.toValue? (n : Number) : Option Value :=
  match n.toInt64? with
  | some number => some (.integer number)
  | none => n.toFloat?.map .decimal

/-- A JSON text. -/
inductive Tree where
  /-- The word `null`. -/
  | null
  /-- A truth value. -/
  | boolean (truth : Bool)
  /-- A number as it is spelled. -/
  | number (spelling : Number)
  /-- A text; none if it spells half a character. -/
  | string (text : Option String)
  /-- A list. -/
  | array (items : List Tree)
  /-- All members of a mapping in the order of the text. -/
  | object (members : List (Option String × Tree))
  deriving Inhabited

namespace Tree

mutual

/-- The greatest number of lists and mappings around any part of a tree, the
tree itself included. -/
def depth : Tree → Nat
  | .array items => itemsDepth items + 1
  | .object members => membersDepth members + 1
  | _ => 0

/-- The greatest depth of an item. -/
def itemsDepth : List Tree → Nat
  | [] => 0
  | x :: xs => max (depth x) (itemsDepth xs)

/-- The greatest depth of a member. -/
def membersDepth : List (Option String × Tree) → Nat
  | [] => 0
  | (_, x) :: xs => max (depth x) (membersDepth xs)

end

mutual

/-- The document of a tree, whatever its depth. A repeated key keeps its first
position and its last value. -/
def toValue? : Tree → Option Value
  | .null => some .null
  | .boolean truth => some (.boolean truth)
  | .number spelling => spelling.toValue?
  | .string text => text.map .string
  | .array items => (itemsToValues? items).map .array
  | .object members => (membersToEntries? members).map fun pairs => .object (Entries.ofPairs pairs)

/-- The documents of all items. -/
def itemsToValues? : List Tree → Option (List Value)
  | [] => some []
  | x :: xs =>
    match toValue? x, itemsToValues? xs with
    | some value, some values => some (value :: values)
    | _, _ => none

/-- The documents of all members, under their keys. -/
def membersToEntries? : List (Option String × Tree) → Option (List (String × Value))
  | [] => some []
  | (key, x) :: xs =>
    match key, toValue? x, membersToEntries? xs with
    | some key, some value, some pairs => some ((key, value) :: pairs)
    | _, _, _ => none

end

/-- Documents are nested at most this deeply. -/
def depthLimit : Nat := 127

/-- The document of a tree that is not nested too deeply. -/
def toDocument? (tree : Tree) : Option Value :=
  if tree.depth ≤ depthLimit then tree.toValue? else none

end Tree

end StackTemplate.Json
