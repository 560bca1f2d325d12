import Courier.Text.Blank
import Courier.Text.Digit

/-!
# Reading whole numbers

A numeral is a sign that may be absent and a run of decimal digits of any script, in which single
underscores may separate digits; blank characters around it do not count.  A numeral of more than
4300 digits is refused.
-/

namespace Courier.Text

/-- The greatest number of digits a numeral may have. -/
def maxNumeralDigits : Nat := 4300

/-- Reads the digits of a numeral from left to right.  `value` is what the digits so far stand for
and `count` is how many they are; `separated` says that an underscore has just been read. -/
def readDigits (value count : Nat) (separated : Bool) : List Char → Option (Nat × Nat)
  | [] => if separated || count == 0 then none else some (value, count)
  | c :: rest =>
    if c = '_' then
      if separated || count == 0 then none else readDigits value count true rest
    else match digitValue? c with
      | some d => readDigits (10 * value + d) (count + 1) false rest
      | none => none

/-- The magnitude of a numeral without sign. -/
def readMagnitude? (s : List Char) : Option Nat :=
  match readDigits 0 0 false s with
  | some (value, count) => if count ≤ maxNumeralDigits then some value else none
  | none => none

/-- The whole number a text stands for. -/
def readInteger? (s : List Char) : Option Int :=
  match trim s with
  | '-' :: digits => (readMagnitude? digits).map fun n => -(n : Int)
  | '+' :: digits => (readMagnitude? digits).map Int.ofNat
  | digits => (readMagnitude? digits).map Int.ofNat

end Courier.Text
