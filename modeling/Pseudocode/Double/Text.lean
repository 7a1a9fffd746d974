import Pseudocode.Double.Shortest

/-! # Numbers as text

* `Double.hexText` writes the bits as sixteen hexadecimal digits, which is exact
  for every number.
* `Double.text` writes the shortest decimal: in positional notation from
  `0.0001` up to, but not with, `10 ^ 16`, else with an exponent. A whole number
  in positional notation keeps one zero behind the point.
-/

namespace Pseudocode.Double

/-- The digits of `n` in the base, padded on the left with zeros to the width. -/
def paddedDigits (base width n : Nat) : List Char :=
  let ds := Nat.toDigits base n
  List.replicate (width - ds.length) '0' ++ ds

def hexText (x : Double) : String :=
  String.ofList ('0' :: 'x' :: (paddedDigits 16 16 x.bits.toNat).map Char.toUpper)

/-- The digits that matter, and the place of the point: the value is
    `0.d₁d₂… * 10 ^ point`. -/
def significant (d : Decimal) : List Char × Int :=
  let ds := Nat.toDigits 10 d.coefficient
  ((ds.reverse.dropWhile (· = '0')).reverse, ds.length + d.exponent)

/-- The digits with the point among, before or behind them. -/
def positional (ds : List Char) (point : Int) : List Char :=
  if point ≤ 0 then '0' :: '.' :: List.replicate (-point).toNat '0' ++ ds
  else
    let whole := point.toNat
    if ds.length ≤ whole then ds ++ List.replicate (whole - ds.length) '0' ++ ['.', '0']
    else ds.take whole ++ '.' :: ds.drop whole

/-- The digits with the point behind the first, and an exponent. -/
def scientific (ds : List Char) (point : Int) : List Char :=
  let tail := ds.drop 1
  ds.take 1 ++ (if tail.isEmpty then [] else '.' :: tail) ++ 'e' :: (toString (point - 1)).toList

/-- The points for which a number is written in positional notation. -/
def isPositional (point : Int) : Bool := -3 ≤ point && point ≤ 16

def magnitudeText (x : Double) : List Char :=
  if x.isNaN then "NaN".toList
  else if !x.isFinite then "inf".toList
  else if x.magnitude.1 = 0 then "0.0".toList
  else
    let (ds, point) := significant x.shortest
    if isPositional point then positional ds point else scientific ds point

/-- The number as its shortest decimal. A NaN has no sign. -/
def text (x : Double) : String :=
  String.ofList (if x.isNegative && !x.isNaN then '-' :: x.magnitudeText else x.magnitudeText)

end Pseudocode.Double
