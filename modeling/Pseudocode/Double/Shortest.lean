import Pseudocode.Double

/-! # The shortest decimal of a number

A finite number is nearest to a whole interval of reals. Among the decimals in
this interval, those with the fewest digits are taken, and of them the one
nearest to the number; of two that are equally near, the larger.

* `Double.interval` gives the number and the two ends of its interval as
  naturals over a common denominator.
* `Decimal.onGrid?` looks for a decimal with a given number of digits.
* `Double.shortest` tries one digit, two digits, and so on; seventeen always do.
-/

namespace Pseudocode

/-- The value `coefficient * 10 ^ exponent`. -/
structure Decimal where
  coefficient : Nat
  exponent : Int
deriving DecidableEq

/-- A value and the ends of an interval around it, over one denominator. -/
structure Interval where
  low : Nat
  value : Nat
  high : Nat
  denominator : Nat
  /-- The ends belong to the interval. -/
  closed : Bool

namespace Interval

/-- The number of decimal digits that a natural number is written with. -/
def digitCount (n : Nat) : Nat := (Nat.toDigits 10 n).length

/-- The exponent `k` for which the value is at least `10 ^ (k - 1)` and below `10 ^ k`. -/
def decimalExponent (i : Interval) : Int :=
  if i.denominator ≤ i.value then digitCount (i.value / i.denominator)
  else 1 - (digitCount ((i.denominator - 1) / i.value) : Int)

/-- The value `n` over the denominator does not lie below the interval. -/
def reachesLow (i : Interval) (n : Nat) : Bool :=
  if i.closed then i.low ≤ n else i.low < n

/-- The value `n` over the denominator does not lie above the interval. -/
def reachesHigh (i : Interval) (n : Nat) : Bool :=
  if i.closed then n ≤ i.high else n < i.high

/-- The same interval with all its naturals multiplied. -/
def scale (i : Interval) (a : Nat) : Interval :=
  { i with low := i.low * a, value := i.value * a, high := i.high * a }

end Interval

namespace Decimal

/-- The multiple of `10 ^ exponent` inside the interval that is nearest to its
    value, the larger one on a tie, if a neighbour of the value lies inside. -/
def onGrid? (i : Interval) (exponent : Int) : Option Decimal :=
  let j := i.scale (Double.exp10 (-exponent).toNat)
  let step := j.denominator * Double.exp10 exponent.toNat
  let below := j.value / step
  let above := below + 1
  let lower := j.reachesLow (below * step)
  let upper := j.reachesHigh (above * step)
  if lower && upper then
    if 2 * (j.value - below * step) < step then some ⟨below, exponent⟩ else some ⟨above, exponent⟩
  else if lower then some ⟨below, exponent⟩
  else if upper then some ⟨above, exponent⟩
  else none

/-- Looks at the grids with `digits` digits and more, at most `count` of them. -/
def search (i : Interval) (digits : Nat) : (count : Nat) → Option Decimal
  | 0 => none
  | count + 1 =>
    match onGrid? i (i.decimalExponent - digits) with
    | some d => some d
    | none => search i (digits + 1) count

end Decimal

namespace Double

/-- The reals that are nearer to the number than to any other. Below a power of
    two the neighbour is half as far as above it. -/
def interval (x : Double) : Interval :=
  let (m, q) := x.magnitude
  let down := if x.fractionField = 0 && x.exponentField ≠ 0 then 1 else 2
  let unit := exp2 (q - 2).toNat
  { low := (4 * m - down) * unit
    value := 4 * m * unit
    high := (4 * m + 2) * unit
    denominator := exp2 (2 - q).toNat
    closed := m % 2 = 0 }

/-- The decimal with the fewest digits that reads back as the number, without its
    sign. The number is finite and not zero. -/
def shortest (x : Double) : Decimal :=
  (Decimal.search x.interval 1 17).getD ⟨0, 0⟩

end Double

end Pseudocode
