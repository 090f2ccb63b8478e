import ScriptTidy.Decimal.Binary

/-!
The shortest decimal text that reads back as a given binary number, and of several the nearest.

The decimals that read back form an interval around the number. For one digit, two, and so on, the two
neighbours of the number on that decimal grid are tried.
-/

set_option autoImplicit false

namespace ScriptTidy

namespace Binary

/-- The number and the ends of its interval, as numerators over one denominator. -/
structure Interval where
  low : Nat
  value : Nat
  high : Nat
  denominator : Nat
  /-- The ends read back too. -/
  closed : Bool

/-- The gap below a power of two is half the gap above it. -/
def interval (number : Binary) : Interval :=
  let narrow := number.mantissa = twoTo 52 ∧ leastExponent < number.exponent
  let unit := twoTo (number.exponent - 2).toNat
  { low := (4 * number.mantissa - if narrow then 1 else 2) * unit
    value := 4 * number.mantissa * unit
    high := (4 * number.mantissa + 2) * unit
    denominator := twoTo (2 - number.exponent).toNat
    closed := number.mantissa % 2 = 0 }

namespace Interval

/-- The decimal `digits · 10 ^ place` over the interval's denominator, times `10 ^ (-place)`. -/
def scaled (range : Interval) (digits : Nat) (place : Int) : Nat :=
  digits * tenTo place.toNat * range.denominator

/-- Holds if `digits · 10 ^ place` reads back. -/
def contains (range : Interval) (digits : Nat) (place : Int) : Bool :=
  let point := range.scaled digits place
  let fine := tenTo (-place).toNat
  (range.low * fine < point ∨ (range.closed ∧ range.low * fine = point)) ∧
    (point < range.high * fine ∨ (range.closed ∧ point = range.high * fine))

/-- The neighbour of the value at that decimal place that reads back, the nearer one if both do. -/
def neighbour? (range : Interval) (place : Int) : Option Nat :=
  let fine := range.value * tenTo (-place).toNat
  let coarse := range.denominator * tenTo place.toNat
  let below := fine / coarse
  match range.contains below place, range.contains (below + 1) place with
  | false, false => none
  | true, false => some below
  | false, true => some (below + 1)
  | true, true => some (roundDiv fine coarse)

end Interval

/-- The least place beyond the digits of the number: it is below `10 ^ place`. -/
def topPlace (number : Binary) : Int :=
  let (high, low) := number.fraction
  let places := (List.range 640).map fun step : Nat => (step : Int) - 325
  (places.find? fun place => high * tenTo (-place).toNat < low * tenTo place.toNat).getD 310

/-- Digits and decimal place of the shortest decimal that reads back. -/
def shortest (number : Binary) : Nat × Int :=
  let top := number.topPlace
  let tried := (List.range 17).filterMap fun count : Nat =>
    let place := top - (count + 1 : Nat)
    (number.interval.neighbour? place).map fun digits => (digits, place)
  tried.head?.getD (0, 0)

/-- Drops the zeros at the end of the digits. -/
def dropZeros : Nat → Nat × Int → Nat × Int
  | 0, decimal => decimal
  | steps + 1, (digits, place) =>
      if digits % 10 = 0 ∧ digits ≠ 0 then dropZeros steps (digits / 10, place + 1) else (digits, place)

/-- The power of ten at the end of a number, with its sign and no more digits than it needs. -/
def exponentText (power : Int) : String := "e" ++ (if 0 ≤ power then "+" else "-") ++ toString power.natAbs

/-- Numbers from `10 ^ -5` to below `10 ^ 16` are written with a point and a digit on each side of it, the
others with one digit in front of the point and a power of ten. -/
def text (number : Binary) : String :=
  if number.mantissa = 0 then "0.0"
  else
    let (digits, place) := dropZeros 17 number.shortest
    let shown := toString digits
    let point : Int := shown.length + place
    let zeros (count : Int) : String := String.ofList (List.replicate count.toNat '0')
    if 0 ≤ place ∧ point ≤ 16 then shown ++ zeros place ++ ".0"
    else if 0 < point ∧ point ≤ 16 then
      String.ofList (shown.toList.take point.toNat) ++ "." ++ String.ofList (shown.toList.drop point.toNat)
    else if -5 < point ∧ point ≤ 0 then "0." ++ zeros (-point) ++ shown
    else
      let tail := shown.toList.drop 1
      String.ofList (shown.toList.take 1) ++ (if tail = [] then "" else "." ++ String.ofList tail) ++
        exponentText (point - 1)

end Binary

end ScriptTidy
