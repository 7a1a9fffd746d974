/-! # Double-precision numbers

A number of the format binary64 is held as its 64 bits, so that two numbers are
equal exactly when they are the same datum: the two zeros differ, and a NaN
equals itself.

* `Double.magnitude` reads the sign-less value of a finite number as `m * 2 ^ q`.
* `Double.ofRatio` is the number nearest to a quotient of natural numbers, a tie
  going to the even neighbour.
* `Double.ofDecimal` reads digits with some of them behind a point.
-/

namespace Pseudocode

/-- A number of the format binary64, as its bits. -/
structure Double where
  bits : UInt64
deriving DecidableEq, Inhabited

namespace Double

def exp2 (n : Nat) : Nat := Nat.pow 2 n

def exp10 (n : Nat) : Nat := Nat.pow 10 n

def zero : Double := ⟨0⟩

def isNegative (x : Double) : Bool := exp2 63 ≤ x.bits.toNat

def exponentField (x : Double) : Nat := x.bits.toNat / exp2 52 % exp2 11

def fractionField (x : Double) : Nat := x.bits.toNat % exp2 52

def isFinite (x : Double) : Bool := x.exponentField ≠ exp2 11 - 1

def isNaN (x : Double) : Bool := !x.isFinite && x.fractionField ≠ 0

/-- The pair `(m, q)` for which the value without its sign is `m * 2 ^ q`. The
    number is finite. -/
def magnitude (x : Double) : Nat × Int :=
  if x.exponentField = 0 then (x.fractionField, -1074)
  else (exp2 52 + x.fractionField, (x.exponentField : Int) - 1075)

/-! ## Rounding -/

/-- The quotient of `n` by `d`, rounded to the nearest natural number, a tie to the even one. -/
def roundQuotient (n d : Nat) : Nat :=
  let q := n / d
  let r := n % d
  if 2 * r < d then q
  else if d < 2 * r then q + 1
  else if q % 2 = 0 then q
  else q + 1

/-- The quotient of `n` by `d * 2 ^ q`, rounded as by `roundQuotient`. -/
def roundScaled (n d : Nat) (q : Int) : Nat :=
  roundQuotient (n * exp2 (-q).toNat) (d * exp2 q.toNat)

/-- The exponent `q` that leaves fifty-three bits in front of the point of
    `n / (d * 2 ^ q)`, but none below the least there is. -/
def exponentFor (n d : Nat) : Int :=
  let q : Int := (n.log2 : Int) - (d.log2 : Int) - 53
  let q := if d * exp2 (53 + q.toNat) ≤ n * exp2 (-q).toNat then q + 1 else q
  max q (-1074)

def infinityBits : Nat := (exp2 11 - 1) * exp2 52

/-- The number nearest to `n / d`; infinite when `n / d` is beyond the largest one. -/
def ofRatio (n d : Nat) : Double :=
  if n = 0 then zero
  else
    let q := exponentFor n d
    let bits := (q + 1074).toNat * exp2 52 + roundScaled n d q
    ⟨UInt64.ofNat (min bits infinityBits)⟩

/-- The number nearest to `digits / 10 ^ places`. -/
def ofDecimal (digits places : Nat) : Double :=
  ofRatio digits (exp10 places)

end Double

end Pseudocode
