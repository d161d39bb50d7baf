import StackTemplate.Decimal.Numeral
import StackTemplate.Json.Parser
import StackTemplate.Text.Natural
import StackTemplate.Value.Basic
import StackTemplate.Yaml.Tag

/-!
# The meaning of YAML scalars

A scalar without quotes may stand for the missing value, a truth value or a
number. Every other one is a text, unless its tag says otherwise.
-/

namespace StackTemplate.Yaml

/-- Spellings of the missing value. -/
def isNullWord (text : String) : Bool := ["null", "Null", "NULL", "~"].contains text

/-- The truth value of a word. -/
def truth? (text : String) : Option Bool :=
  if ["true", "True", "TRUE"].contains text then some true
  else if ["false", "False", "FALSE"].contains text then some false
  else none

/-- The number of a non-empty run of digits of a base up to sixteen. -/
def digitsOf? (base : Nat) (digits : List Char) : Option Nat :=
  if digits = [] then none
  else
    digits.foldl (fun number c =>
      match number, Json.hexDigit? c with
      | some n, some d => if d < base then some (n * base + d) else none
      | _, _ => none) (some 0)

/-- A numeral whose letter after a zero names its base, or a decimal one. -/
def wholeDigits? : List Char → Option Nat
  | '0' :: 'x' :: digits => digitsOf? 16 digits
  | '0' :: 'o' :: digits => digitsOf? 8 digits
  | '0' :: 'b' :: digits => digitsOf? 2 digits
  | digits => Text.digits? digits

/-- Drops one leading sign. -/
def dropSign : List Char → List Char
  | '+' :: cs => cs
  | '-' :: cs => cs
  | cs => cs

/-- Decimal digits after a leading zero: such a text is no number. -/
def isZeroPadded (cs : List Char) : Bool :=
  match dropSign cs with
  | '0' :: digits => digits ≠ [] && digits.all Char.isDigit
  | _ => false

/-- The whole number that a text spells, of any size. -/
def wholeNumber? (cs : List Char) : Option Int :=
  if isZeroPadded cs then none
  else
    match cs with
    | '-' :: digits => (wholeDigits? digits).map fun n => -(n : Int)
    | _ => (wholeDigits? (Text.dropPlus cs)).map Int.ofNat

/-- Whole numbers beyond 64 bits have no exact meaning. Up to 128 bits they are
refused, and still larger ones do not count as whole numbers. -/
inductive WholeMeaning where
  /-- A number with a meaning. -/
  | value (value : Value)
  /-- A number that is refused. -/
  | refused
  /-- No whole number. -/
  | other

/-- The meaning of a whole number. -/
def wholeMeaning (n : Int) : WholeMeaning :=
  if -0x8000000000000000 ≤ n ∧ n < 0x8000000000000000 then .value (.integer (Int64.ofInt n))
  else if 0 ≤ n ∧ n < 0x10000000000000000 then
    .value (.decimal (Float.ofScientific n.toNat false 0))
  else if -0x80000000000000000000000000000000 ≤ n ∧
      n < 0x100000000000000000000000000000000 then .refused
  else .other

/-- The meaning of a text that may spell a whole number. -/
def wholeMeaningOf (cs : List Char) : WholeMeaning :=
  match wholeNumber? cs with
  | some n => wholeMeaning n
  | none => .other

/-- The exponent after its mark: an optional sign and digits. -/
def exponent? : List Char → Option Int
  | '-' :: digits => (Text.digits? digits).map fun n => -(n : Int)
  | digits => (Text.digits? (Text.dropPlus digits)).map Int.ofNat

/-- A decimal numeral without sign: digits with an optional point, and an
optional exponent. -/
def numeral? (negative : Bool) (cs : List Char) : Option Decimal.Numeral :=
  let integral := cs.takeWhile Char.isDigit
  let (fraction, rest) := match cs.dropWhile Char.isDigit with
    | '.' :: rest => (rest.takeWhile Char.isDigit, rest.dropWhile Char.isDigit)
    | rest => ([], rest)
  if integral = [] ∧ fraction = [] then none
  else
    match rest with
    | [] => some (.ofDigits negative integral fraction 0)
    | c :: rest =>
      if c = 'e' ∨ c = 'E' then
        (exponent? rest).map fun exponent => .ofDigits negative integral fraction exponent
      else none

/-- The number that a text spells in decimal notation. Infinities and the
result of undefined operations have spellings too, but no number: they become
the missing value. -/
def decimalValue? (text : String) : Option Value :=
  let unsigned := dropSign text.toList
  if [".inf", ".Inf", ".INF"].contains (String.ofList unsigned) then some .null
  else if [".nan", ".NaN", ".NAN"].contains text then some .null
  else
    match numeral? (text.toList.head? == some '-') unsigned with
    | some numeral => numeral.toFloat?.map .decimal
    | none => none

/-- The value of a plain scalar without a tag; none if it is refused. -/
def plainValue? (text : String) : Option Value :=
  if text = "" ∨ isNullWord text then some .null
  else
    match truth? text with
    | some truth => some (.boolean truth)
    | none =>
      match wholeMeaningOf text.toList with
      | .value value => some value
      | .refused => none
      | .other =>
        if isZeroPadded text.toList then some (.string text)
        else some ((decimalValue? text).getD (.string text))

/-- The value of a scalar whose tag says what is given; none if the text does not
fit its type. Without a type only plain scalars may be more than texts. -/
def scalarValue? (meaning : TagMeaning) (text : String) (plain : Bool) : Option Value :=
  match meaning with
  | .untyped => if plain then plainValue? text else some (.string text)
  | .boolean => (truth? text).map .boolean
  | .integer =>
    match wholeMeaningOf text.toList with
    | .value value => some value
    | _ => none
  | .decimal => decimalValue? text
  | .null => if isNullWord text then some .null else none
  | .text => some (.string text)
  | .foreign => none

end StackTemplate.Yaml
