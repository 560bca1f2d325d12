import Courier.Decimal.Places

/-!
# The shortest decimal that reads back

A finite number stands for an interval of reals, those that are rounded to it.  Its shortest decimal
has the fewest digits that a decimal in the interval can have, and is the nearest to the value among
those.  The digits are found by trying one grid of decimals after the other, from one digit to
seventeen, in exact arithmetic; on each grid only the two neighbours of the value are tried.

`Style` holds the decisions of a written form, and `shortest` writes a number in a style.
-/

namespace Courier.Decimal

/-- The reals that are rounded to a number: its neighbours' midpoints over a common denominator,
with the value itself. -/
structure Interval where
  low : Nat
  value : Nat
  high : Nat
  den : Nat
  closed : Bool
  deriving Repr

/-- The interval of a finite number other than zero.  Below a power of two the numbers lie twice as
close. -/
def Double.interval (x : Double) : Interval :=
  let m := x.mantissa
  let unit := Nat.pow 2 x.scale
  let below := if x.fractionBits = 0 ∧ x.exponentBits > 1 then 1 else 2
  { low := (4 * m - below) * unit
    value := 4 * m * unit
    high := (4 * m + 2) * unit
    den := 4 * Nat.pow 2 1074
    closed := m % 2 = 0 }

/-- The number of decimal digits before the point of `num / den`, if it is at least one. -/
def wholeDigits (num den : Nat) : Nat :=
  if num < den then 0 else (Nat.toDigits 10 (num / den)).length

/-- The number of zeros that follow the point of `num / den`, at most `tries`. -/
def leadingZeros (num den : Nat) : Nat → Nat
  | 0 => 0
  | tries + 1 => if num * 10 < den then leadingZeros (num * 10) den tries + 1 else 0

/-- Digits and a power of ten: the number is `0.digits` times ten to `point`. -/
structure Digits where
  digits : List Char
  point : Int
  deriving DecidableEq, Repr

/-- Tries the grid of decimals with `count` digits, given `point` as in `Digits`. -/
def tryGrid (v : Interval) (point : Int) (count : Nat) : Option Nat :=
  let shift := (count : Int) - point
  let up := Nat.pow 10 shift.toNat
  let down := Nat.pow 10 (-shift).toNat
  let floor := v.value * up / (v.den * down)
  let inside (d : Nat) : Bool :=
    let place := d * v.den * down
    if v.closed then v.low * up ≤ place && place ≤ v.high * up else v.low * up < place && place < v.high * up
  let nearest := roundDiv (v.value * up) (v.den * down)
  let other := if nearest = floor then floor + 1 else floor
  if inside nearest then some nearest else if inside other then some other else none

/-- The first grid that has a decimal in the interval. -/
def searchGrids (v : Interval) (point : Int) (count : Nat) : Nat → Nat × Nat
  | 0 => (roundDiv (v.value * Nat.pow 10 ((count : Int) - point).toNat)
      (v.den * Nat.pow 10 (point - (count : Int)).toNat), count)
  | tries + 1 =>
    match tryGrid v point count with
    | some d => (d, count)
    | none => searchGrids v point (count + 1) tries

/-- The digits of the shortest decimal of a finite number other than zero. -/
def shortestDigits (x : Double) : Digits :=
  let v := x.interval
  let point : Int :=
    if v.value < v.den then -(leadingZeros v.value v.den 400 : Int)
    else wholeDigits v.value v.den
  let (d, count) := searchGrids v point 1 16
  let digits := Nat.toDigits 10 d
  let carried : Int := (digits.length : Int) - count
  ⟨(digits.reverse.dropWhile (· == '0')).reverse, point + carried⟩

/-- How a number is written. -/
structure Style where
  /-- The least point position written without an exponent. -/
  leastPoint : Int
  /-- The greatest point position written without an exponent. -/
  greatestPoint : Int
  /-- The least number of digits of an exponent. -/
  exponentWidth : Nat
  nan : String
  infinity : String

/-- The style of numbers in reports: positional from 0.0001 up to below 10^16, with a digit on both
sides of the point, and exponents of at least two digits with a sign. -/
def reportStyle : Style := ⟨-3, 16, 2, "nan", "inf"⟩

/-- The text of a number in a style. -/
def shortest (style : Style) (x : Double) : String :=
  if x.isNaN then style.nan
  else
    let sign := if x.isNegative then "-" else ""
    if x.isInfinite then sign ++ style.infinity
    else if x.mantissa = 0 then sign ++ "0.0"
    else
      let ⟨digits, point⟩ := shortestDigits x
      let body :=
        if style.leastPoint ≤ point ∧ point ≤ style.greatestPoint then
          if point ≤ 0 then "0.".toList ++ List.replicate (-point).toNat '0' ++ digits
          else
            let n := point.toNat
            if digits.length ≤ n then digits ++ List.replicate (n - digits.length) '0' ++ ".0".toList
            else digits.take n ++ '.' :: digits.drop n
        else
          let exponent := point - 1
          let mark := if exponent < 0 then "e-".toList else "e+".toList
          let head := match digits with
            | [d] => [d]
            | d :: ds => d :: '.' :: ds
            | [] => []
          head ++ mark ++ paddedDigits style.exponentWidth exponent.natAbs
      sign ++ String.ofList body

end Courier.Decimal
