import Courier.Decimal.Double

/-!
# Decimals with a fixed number of places

The value of a number is rounded to a given number of decimal places.  A value half way between two
decimals goes to the one with an even last digit.
-/

namespace Courier.Decimal

/-- A quotient rounded to the nearest whole number, a half to the even neighbour. -/
def roundDiv (num den : Nat) : Nat :=
  let q := num / den
  let r := num % den
  if 2 * r < den then q
  else if 2 * r > den then q + 1
  else if q % 2 = 0 then q else q + 1

/-- Decimal digits, padded with zeros on the left to at least `width`. -/
def paddedDigits (width n : Nat) : List Char :=
  let digits := Nat.toDigits 10 n
  List.replicate (width - digits.length) '0' ++ digits

/-- The text of a finite number with `places` digits after the point, of which there is at least
one. -/
def fixed (places : Nat) (x : Double) : String :=
  let (num, den) := x.magnitude
  let scaled := roundDiv (num * Nat.pow 10 places) den
  let digits := paddedDigits (places + 1) scaled
  let whole := digits.take (digits.length - places)
  let fraction := digits.drop (digits.length - places)
  let sign := if x.isNegative then ['-'] else []
  String.ofList (sign ++ whole ++ '.' :: fraction)

/-- A rounded quotient lies within half a unit of the exact one. -/
theorem roundDiv_near (num den : Nat) (h : 0 < den) :
    2 * (roundDiv num den * den) ≤ 2 * num + den ∧ 2 * num ≤ 2 * (roundDiv num den * den) + den := by
  have hdiv := Nat.div_add_mod num den
  have hmod := Nat.mod_lt num h
  have hcomm : num / den * den = den * (num / den) := Nat.mul_comm _ _
  have hsucc : (num / den + 1) * den = den * (num / den) + den := by
    rw [Nat.add_mul, hcomm, Nat.one_mul]
  simp only [roundDiv]
  split
  · omega
  · split
    · omega
    · split <;> omega

end Courier.Decimal
