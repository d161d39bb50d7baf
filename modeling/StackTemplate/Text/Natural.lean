/-!
# Natural numbers in text

Positions and limits are written as unsigned decimal numerals that fit a
64-bit word. An explicit plus sign is allowed, a minus sign is not, and
leading zeros do not matter.
-/

namespace StackTemplate.Text

/-- The largest number that a position or a limit may have. -/
def wordMax : Nat := 18446744073709551615

/-- The number that a non-empty run of decimal digits denotes. -/
def digits? (cs : List Char) : Option Nat :=
  if cs ≠ [] ∧ cs.all Char.isDigit then some (Nat.ofDigitChars 10 cs 0) else none

/-- Drops one leading plus sign. -/
def dropPlus : List Char → List Char
  | '+' :: cs => cs
  | cs => cs

/-- Reads a natural number: an optional plus sign, then decimal digits whose
value is at most `wordMax`. -/
def natural? (text : String) : Option Nat :=
  (digits? (dropPlus text.toList)).filter (· ≤ wordMax)

/-- The decimal digits of a natural number, without leading zeros. -/
def natural (n : Nat) : List Char := Nat.toDigits 10 n

/-- The decimal digits of an integer, after a minus sign if it is negative. -/
def integer : Int → List Char
  | .ofNat n => natural n
  | .negSucc n => '-' :: natural (n + 1)

/-- A natural number is written with digits. -/
theorem isDigit_of_mem_natural {n : Nat} {c : Char} (h : c ∈ natural n) : c.isDigit = true :=
  Nat.isDigit_of_mem_toDigits (by decide) (by decide) h

/-- No number but zero starts with a zero. -/
theorem head?_natural_ne_zero {n : Nat} (h : n ≠ 0) : (natural n).head? ≠ some '0' := by
  induction n using Nat.strongRecOn with
  | ind n ih =>
    rw [natural, Nat.toDigits_eq_if (by decide)]
    split
    · simpa using h
    · next hlarge =>
      have hsmaller : n / 10 < n := by omega
      have hpositive : n / 10 ≠ 0 := by omega
      have hfirst := ih (n / 10) hsmaller hpositive
      cases hdigits : Nat.toDigits 10 (n / 10) with
      | nil => exact absurd hdigits Nat.toDigits_ne_nil
      | cons first rest =>
        rw [natural, hdigits] at hfirst
        exact hfirst

end StackTemplate.Text
