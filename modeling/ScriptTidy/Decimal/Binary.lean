/-!
Binary floating-point numbers with 53 bits, as the exact numbers that they are.

A number that is not one of them is rounded to the nearest; of two equally near ones, to that with the even
mantissa. Products and quotients are the rounded exact ones.
-/

set_option autoImplicit false

namespace ScriptTidy

/-- The number `mantissa · 2 ^ exponent`. -/
structure Binary where
  mantissa : Nat
  exponent : Int
deriving DecidableEq, Repr

/-- The power of two. -/
def twoTo (power : Nat) : Nat := Nat.pow 2 power

/-- The power of ten. -/
def tenTo (power : Nat) : Nat := Nat.pow 10 power

namespace Binary

/-- The least exponent of all, which the numbers next to zero have. -/
def leastExponent : Int := -1074

/-- The quotient rounded to the nearest natural number, a half to the even neighbour. -/
def roundDiv (numerator denominator : Nat) : Nat :=
  let quotient := numerator / denominator
  let twice := 2 * (numerator % denominator)
  if twice < denominator ∨ (twice = denominator ∧ quotient % 2 = 0) then quotient else quotient + 1

/-- `numerator / denominator / 2 ^ exponent` as numerator and denominator. -/
def scaled (numerator denominator : Nat) (exponent : Int) : Nat × Nat :=
  (numerator * twoTo (-exponent).toNat, denominator * twoTo exponent.toNat)

/-- The number nearest to a quotient of positive numbers; none if it would lie beyond the greatest. -/
def nearest? (numerator denominator : Nat) : Option Binary :=
  if numerator = 0 then some ⟨0, 0⟩
  else
    let first : Int := (numerator.log2 : Int) - denominator.log2 - 52
    let (high, low) := scaled numerator denominator first
    let exponent := max (if high / low < twoTo 52 then first - 1 else first) leastExponent
    let (high, low) := scaled numerator denominator exponent
    let mantissa := roundDiv high low
    let found : Binary := if mantissa = twoTo 53 then ⟨twoTo 52, exponent + 1⟩ else ⟨mantissa, exponent⟩
    if found.exponent ≤ 971 then some found else none

/-- The number as numerator and denominator. -/
def fraction (number : Binary) : Nat × Nat :=
  (number.mantissa * twoTo number.exponent.toNat, twoTo (-number.exponent).toNat)

def mul? (first second : Binary) : Option Binary :=
  nearest? (first.fraction.1 * second.fraction.1) (first.fraction.2 * second.fraction.2)

def div? (first second : Binary) : Option Binary :=
  nearest? (first.fraction.1 * second.fraction.2) (first.fraction.2 * second.fraction.1)

end Binary

end ScriptTidy
