import Courier.Decimal.Shortest
import Courier.Json.Reader
import Courier.Text.Lines

/-!
# Plain scalars

A scalar that is written without quotes stands for nothing, a truth value, a number or itself,
by its form alone.  `scalar` decides which; `keyText` is the text of a scalar that is a key.
-/

namespace Courier.Yaml

/-- Scalars that stand for nothing. -/
def nullWords : List String := ["", "~", "null", "Null", "NULL"]

/-- Scalars that stand for a truth value. -/
def trueWords : List String :=
  ["yes", "Yes", "YES", "true", "True", "TRUE", "on", "On", "ON"]

def falseWords : List String :=
  ["no", "No", "NO", "false", "False", "FALSE", "off", "Off", "OFF"]

/-- A sign, read as whether it is a minus, and what follows it. -/
def splitSign : List Char → Bool × List Char
  | '-' :: cs => (true, cs)
  | '+' :: cs => (false, cs)
  | cs => (false, cs)

/-- The number that digits stand for in a base.  Underscores do not count. -/
def valueInBase (base : Nat) (digits : List Char) : Nat :=
  (digits.filterMap Text.hexValue?).foldl (fun n d => base * n + d) 0

/-- Whether a text is not empty and holds only digits of a class and underscores. -/
def isDigits (isDigit : Char → Bool) (cs : List Char) : Bool :=
  !cs.isEmpty && cs.all fun c => isDigit c || c == '_'

def isBinaryDigit (c : Char) : Bool := c == '0' || c == '1'

def isOctalDigit (c : Char) : Bool := '0' ≤ c && c ≤ '7'

/-- The parts of a number in base sixty: digits that begin with none of zero, and further parts
below sixty. -/
def sixtyParts? (cs : List Char) : Option (List (List Char)) :=
  match Text.splitOn ':' cs with
  | first :: second :: rest =>
    let isPart (p : List Char) : Bool :=
      p.all Char.isDigit && (p.length == 1 || (p.length == 2 && p.head?.any (· < '6')))
    if isDigits Char.isDigit first && first.head?.any Char.isDigit && (second :: rest).all isPart
    then some (first :: second :: rest) else none
  | _ => none

/-- The value of parts in base sixty. -/
def valueOfParts (parts : List (List Char)) : Nat :=
  parts.foldl (fun n p => 60 * n + valueInBase 10 p) 0

/-- The magnitude of a whole number. -/
def magnitude? (cs : List Char) : Option Nat :=
  match cs with
  | '0' :: 'b' :: digits =>
    if isDigits isBinaryDigit digits then some (valueInBase 2 digits) else none
  | '0' :: 'x' :: digits =>
    if isDigits (fun c => (Text.hexValue? c).isSome) digits then some (valueInBase 16 digits)
    else none
  | ['0'] => some 0
  | '0' :: digits => if isDigits isOctalDigit digits then some (valueInBase 8 digits) else none
  | c :: _ =>
    if !c.isDigit then none
    else if isDigits Char.isDigit cs then some (valueInBase 10 cs)
    else (sixtyParts? cs).map valueOfParts
  | [] => none

/-- A whole number. -/
def integer? (cs : List Char) : Option Int :=
  let (negative, digits) := splitSign cs
  (magnitude? digits).map fun n => if negative then -(n : Int) else n

/-- An exponent, which needs its sign.  A text without one has the exponent zero. -/
def exponent? : List Char → Option Int
  | [] => some 0
  | e :: sign :: digits =>
    if (e == 'e' || e == 'E') && (sign == '+' || sign == '-') && !digits.isEmpty &&
        digits.all Char.isDigit then
      let n : Int := Json.digitsValue digits
      some (if sign == '-' then -n else n)
    else none
  | [_] => none

/-- Numbers that are none. -/
def specialReals : List (String × Float) := [
  (".inf", 1.0 / 0.0), (".Inf", 1.0 / 0.0), (".INF", 1.0 / 0.0),
  ("+.inf", 1.0 / 0.0), ("+.Inf", 1.0 / 0.0), ("+.INF", 1.0 / 0.0),
  ("-.inf", -1.0 / 0.0), ("-.Inf", -1.0 / 0.0), ("-.INF", -1.0 / 0.0),
  (".nan", 0.0 / 0.0), (".NaN", 0.0 / 0.0), (".NAN", 0.0 / 0.0)]

/-- A number with a point. -/
def real? (cs : List Char) : Option Decimal.Double :=
  match specialReals.lookup (String.ofList cs) with
  | some x => some (.ofFloat x)
  | none =>
    let (negative, unsigned) := splitSign cs
    match Text.cutAt '.' unsigned with
    | (_, none) => none
    | (whole, some after) =>
      let isPart (c : Char) : Bool := c.isDigit || c == '_'
      let fraction := after.takeWhile isPart
      let digits (part : List Char) : List Char := part.filter Char.isDigit
      let startsWell :=
        if whole.isEmpty then cs.head? == some '.' && fraction.head?.any Char.isDigit
        else whole.head?.any Char.isDigit && whole.all isPart
      match exponent? (after.drop fraction.length) with
      | some e =>
        if startsWell then
          let n := Json.digitsValue (digits whole ++ digits fraction)
          some (Json.realOf negative n (e - (digits fraction).length))
        else none
      | none => none

/-- What a plain scalar stands for. -/
def scalar (cs : List Char) : Json :=
  let text := String.ofList cs
  if nullWords.contains text then .null
  else if trueWords.contains text then .bool true
  else if falseWords.contains text then .bool false
  else match integer? cs with
    | some n => .int n
    | none =>
      match real? cs with
      | some x => .real x
      | none => .string text

/-- The text of a key.  Lists and mappings are no keys. -/
def keyText : Json → Option String
  | .string s | .broken s => some s
  | .int n => some (toString n)
  | .bool true => some "true"
  | .bool false => some "false"
  | .null => some "null"
  | .real x => some (Decimal.shortest Decimal.reportStyle x)
  | .array _ | .object _ => none

end Courier.Yaml
