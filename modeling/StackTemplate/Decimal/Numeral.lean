/-!
# Decimal numerals

A numeral is a coefficient, a power of ten and a sign. Its value is the
nearest binary number, and it has none when it lies beyond the largest one.
-/

namespace StackTemplate.Decimal

/-- A decimal numeral: `± digits * 10 ^ exponent`. -/
structure Numeral where
  /-- Whether the numeral carries a minus sign. -/
  negative : Bool
  /-- All digits, read as one natural number. -/
  digits : Nat
  /-- The power of ten that the last digit stands for. -/
  exponent : Int
  deriving DecidableEq

/-- The nearest binary number without sign. Numerals of more than 310 or fewer
than -330 integral digits are not computed: they overflow or vanish. -/
def Numeral.magnitude? (n : Numeral) : Option Float :=
  let leading := n.exponent + (Nat.toDigits 10 n.digits).length
  if n.digits = 0 ∨ leading < -330 then some 0
  else if 310 < leading then none
  else
    let x := Float.ofScientific n.digits (n.exponent < 0) n.exponent.natAbs
    if x.isFinite then some x else none

/-- The nearest binary number, if the numeral does not overflow. A negative
zero keeps its sign. -/
def Numeral.toFloat? (n : Numeral) : Option Float :=
  n.magnitude?.map fun x => if n.negative then -x else x

/-- The numeral with the given integral and fractional digits and exponent. -/
def Numeral.ofDigits (negative : Bool) (integral fraction : List Char) (exponent : Int) :
    Numeral :=
  ⟨negative, Nat.ofDigitChars 10 (integral ++ fraction) 0, exponent - fraction.length⟩

end StackTemplate.Decimal
