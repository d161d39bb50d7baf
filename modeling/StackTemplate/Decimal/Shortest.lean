/-!
# Shortest decimals of binary numbers

A finite binary number stands for a whole interval of reals, those that are
rounded to it. Among the decimals in that interval the shortest one is chosen,
and among several of the same length the nearest to the number itself. All
comparisons are made between natural numbers, so nothing is rounded on the way.
-/

namespace StackTemplate.Decimal

/-- What to take when two shortest decimals are equally near. -/
inductive Tie where
  /-- The decimal whose last digit is even. -/
  | toEven
  /-- The larger decimal. -/
  | up
  deriving DecidableEq

/-- A decimal without sign: the coefficient times a power of ten. -/
structure Coefficient where
  /-- All digits, read as one natural number. -/
  digits : Nat
  /-- The power of ten that the last digit stands for. -/
  exponent : Int
  deriving DecidableEq

/-- The reals that are rounded to one positive binary number. All four numbers
are divided by `scale`. -/
structure Neighbourhood where
  /-- The number itself. -/
  value : Nat
  /-- The smallest real of the interval, or its lower limit. -/
  low : Nat
  /-- The largest real of the interval, or its upper limit. -/
  high : Nat
  /-- The common denominator. -/
  scale : Nat
  /-- Whether the two ends belong to the interval. -/
  closed : Bool

/-- The bit of the significand that normal numbers do not store. -/
def hiddenBit : Nat := 0x10000000000000

/-- The bit that is set in negative numbers. -/
def signBit : Nat := 0x8000000000000000

/-- The neighbourhood of `significand * 2 ^ exponent`. The gap below a power of
two is half as wide as the gap above, except below the smallest normal number. -/
def Neighbourhood.ofBinary (significand : Nat) (exponent : Int) : Neighbourhood :=
  let shift := exponent - 2
  let factor := Nat.pow 2 shift.toNat
  let below := if significand = hiddenBit ∧ -1074 < exponent then 1 else 2
  { value := 4 * significand * factor
    low := (4 * significand - below) * factor
    high := (4 * significand + 2) * factor
    scale := Nat.pow 2 (-shift).toNat
    closed := significand % 2 = 0 }

/-- Whether a decimal lies in the interval. -/
def Neighbourhood.contains (n : Neighbourhood) (c : Coefficient) : Bool :=
  let point := c.digits * Nat.pow 10 c.exponent.toNat * n.scale
  let grid := Nat.pow 10 (-c.exponent).toNat
  if n.closed then n.low * grid ≤ point && point ≤ n.high * grid
  else n.low * grid < point && point < n.high * grid

/-- The power of ten just above the number: the number is below it, and not
below its tenth part. -/
def Neighbourhood.magnitude (n : Neighbourhood) : Int :=
  if n.scale ≤ n.value then ((Nat.toDigits 10 (n.value / n.scale)).length : Int)
  else 1 - ((Nat.toDigits 10 ((n.scale - 1) / n.value)).length : Int)

/-- The decimal chosen on the grid of multiples of `10 ^ exponent`: one of the
two multiples around the number, if any of them lies in the interval. -/
def Neighbourhood.onGrid? (n : Neighbourhood) (tie : Tie) (exponent : Int) :
    Option Coefficient :=
  let numerator := n.value * Nat.pow 10 (-exponent).toNat
  let denominator := n.scale * Nat.pow 10 exponent.toNat
  let below : Coefficient := ⟨numerator / denominator, exponent⟩
  let above : Coefficient := ⟨numerator / denominator + 1, exponent⟩
  match n.contains below, n.contains above with
  | false, false => none
  | true, false => some below
  | false, true => some above
  | true, true =>
    let twice := 2 * (numerator % denominator)
    if twice < denominator then some below
    else if denominator < twice then some above
    else if tie = .toEven ∧ below.digits % 2 = 0 then some below
    else some above

/-- Removes the zeros at the end of the coefficient. The first argument bounds
how many there can be. -/
def Coefficient.trim : Nat → Coefficient → Coefficient
  | 0, c => c
  | fuel + 1, c =>
    if c.digits % 10 = 0 ∧ c.digits ≠ 0 then trim fuel ⟨c.digits / 10, c.exponent + 1⟩
    else c

/-- The first grid with a hit, from `count` digits on. Seventeen digits are
always enough. -/
def Neighbourhood.search (n : Neighbourhood) (tie : Tie) : Nat → Nat → Option Coefficient
  | 0, _ => none
  | fuel + 1, count =>
    match n.onGrid? tie (n.magnitude - count) with
    | some c => some c
    | none => n.search tie fuel (count + 1)

/-- The shortest decimal that is rounded to `significand * 2 ^ exponent`. -/
def shortest (tie : Tie) (significand : Nat) (exponent : Int) : Coefficient :=
  if significand = 0 then ⟨0, 0⟩
  else
    let n := Neighbourhood.ofBinary significand exponent
    ((n.search tie 17 1).getD ⟨0, 0⟩).trim 17

/-- A finite number with its sign apart. -/
structure Signed where
  /-- Whether the number carries a minus sign; zero may. -/
  negative : Bool
  /-- The number without its sign. -/
  magnitude : Coefficient

/-- The shortest decimal that is read back as the given finite number. -/
def ofFloat (tie : Tie) (x : Float) : Signed :=
  let bits := x.toBits.toNat
  let biased : Nat := bits / hiddenBit % 2048
  let fraction : Nat := bits % hiddenBit
  let magnitude :=
    if biased = 0 then shortest tie fraction (-1074)
    else shortest tie (hiddenBit + fraction) ((biased : Int) - 1075)
  ⟨signBit ≤ bits, magnitude⟩

end StackTemplate.Decimal
