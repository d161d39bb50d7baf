import StackTemplate.Decimal.Shortest
import StackTemplate.Text.Natural

/-!
# Layouts of decimals

A decimal is written either positionally, with a point between the units and
the tenths, or with an exponent. A layout says for which numbers each way is
used and whether an integral number keeps a zero after its point.
-/

namespace StackTemplate.Decimal

/-- How finite numbers are written. -/
structure Layout where
  /-- What to take when two shortest decimals are equally near. -/
  tie : Tie
  /-- The exponents of the leading digit that are written positionally: the
  first one, and the first one after them. Without bounds all are. -/
  positional : Option (Int × Int)
  /-- Whether an integral number is written with a zero after its point. -/
  pointZero : Bool
  /-- Whether an exponent that is not negative is written with a plus sign. -/
  exponentPlus : Bool

/-- Digits with a point after the first `units` of them, padded with zeros on
either side where the digits do not reach. -/
def positionalText (pointZero : Bool) (digits : List Char) (units : Int) : List Char :=
  if units ≤ 0 then '0' :: '.' :: List.replicate (-units).toNat '0' ++ digits
  else
    let n := units.toNat
    if digits.length ≤ n then
      digits ++ List.replicate (n - digits.length) '0' ++ (if pointZero then ['.', '0'] else [])
    else digits.take n ++ '.' :: digits.drop n

/-- One digit, the others after a point, and the exponent with its sign. -/
def exponentText (exponentPlus : Bool) (digits : List Char) (exponent : Int) : List Char :=
  let fraction := match digits.drop 1 with
    | [] => []
    | rest => '.' :: rest
  let sign := if exponent < 0 then ['-'] else if exponentPlus then ['+'] else []
  digits.take 1 ++ fraction ++ 'e' :: sign ++ Text.natural exponent.natAbs

/-- The text of a coefficient. -/
def Layout.coefficient (layout : Layout) (c : Coefficient) : List Char :=
  let digits := Text.natural c.digits
  let leading := c.exponent + digits.length - 1
  match layout.positional with
  | none => positionalText layout.pointZero digits (leading + 1)
  | some (first, stop) =>
    if c.digits = 0 ∨ (first ≤ leading ∧ leading < stop) then
      positionalText layout.pointZero digits (leading + 1)
    else exponentText layout.exponentPlus digits leading

/-- The text of a finite number. -/
def Layout.write (layout : Layout) (x : Float) : List Char :=
  let n := ofFloat layout.tie x
  let text := layout.coefficient n.magnitude
  if n.negative then '-' :: text else text

end StackTemplate.Decimal
