import Courier.Json.Value
import Courier.Text.Digit

/-!
# Reading JSON

A reader of JSON texts that stops at the first fault and says where it stands.  Besides the standard
it knows the names `NaN`, `Infinity` and `-Infinity`.  Of two members with one key the later
counts.  A string is read as characters and halves of surrogate pairs, and `ofChars` says what value
it is.

A text is read from left to right; each step takes the characters that are left and returns those
it leaves.  The nesting of values is bounded by the number of characters.
-/

namespace Courier.Json

open Decimal (Double)

/-- What is wrong with a text. -/
inductive Cause where
  | byteOrderMark
  | expectedValue
  | expectedName
  | expectedColon
  | expectedComma
  | unterminatedString
  | controlCharacter
  | invalidEscape
  | invalidUnicodeEscape
  | extraData
  deriving DecidableEq, Repr

def Cause.text : Cause → String
  | .byteOrderMark => "Unexpected UTF-8 BOM (decode using utf-8-sig)"
  | .expectedValue => "Expecting value"
  | .expectedName => "Expecting property name enclosed in double quotes"
  | .expectedColon => "Expecting ':' delimiter"
  | .expectedComma => "Expecting ',' delimiter"
  | .unterminatedString => "Unterminated string starting at"
  | .controlCharacter => "Invalid control character at"
  | .invalidEscape => "Invalid \\escape"
  | .invalidUnicodeEscape => "Invalid \\uXXXX escape"
  | .extraData => "Extra data"

/-- The first fault of a text and its position, counted in characters from zero. -/
structure ReadFault where
  cause : Cause
  position : Nat
  deriving DecidableEq, Repr

/-- The message names the line and the column, both counted from one. -/
def ReadFault.message (text : List Char) (f : ReadFault) : String :=
  let before := text.take f.position
  let line := before.count '\n' + 1
  let column := (before.reverse.takeWhile (· != '\n')).length + 1
  s!"{f.cause.text}: line {line} column {column} (char {f.position})"

/-- The characters that are left, and the position of the first of them. -/
structure Rest where
  position : Nat
  chars : List Char
  deriving DecidableEq, Repr

def Rest.drop (n : Nat) (r : Rest) : Rest := ⟨r.position + n, r.chars.drop n⟩

def isSpace (c : Char) : Bool := c == ' ' || c == '\t' || c == '\n' || c == '\r'

def Rest.skipSpace (r : Rest) : Rest := r.drop (r.chars.takeWhile isSpace).length

/-- Whether the next character is `c`. -/
def Rest.startsWith (c : Char) (r : Rest) : Bool := r.chars.head? == some c

/-- The value of four hexadecimal digits. -/
def readHex4 : List Char → Option Nat
  | a :: b :: c :: d :: _ => do
    let a ← Text.hexValue? a
    let b ← Text.hexValue? b
    let c ← Text.hexValue? c
    let d ← Text.hexValue? d
    return ((a * 16 + b) * 16 + c) * 16 + d
  | _ => none

/-- What a character stands for after a backslash. -/
def unescape? (c : Char) : Option Char :=
  match c with
  | '"' => some '"'
  | '\\' => some '\\'
  | '/' => some '/'
  | 'b' => some '\x08'
  | 'f' => some '\x0c'
  | 'n' => some '\n'
  | 'r' => some '\r'
  | 't' => some '\t'
  | _ => none

def isHighSurrogate (n : Nat) : Bool := 0xD800 ≤ n && n < 0xDC00

def isLowSurrogate (n : Nat) : Bool := 0xDC00 ≤ n && n < 0xE000

/-- The character with a code point.  Half of a surrogate pair has none. -/
def charOf? (n : Nat) : Option Char := if n.isValidChar then some (Char.ofNat n) else none

/-- Characters as a text, with U+FFFD for each half of a surrogate pair. -/
def shown (chars : List (Option Char)) : String := String.ofList (chars.map (·.getD '\uFFFD'))

/-- Characters as a value. -/
def ofChars (chars : List (Option Char)) : Json :=
  if none ∈ chars then .broken (shown chars) else .string (shown chars)

/-- Reads a string up to its closing quote.  `start` is the position of the opening quote and
`chars` holds the characters read so far in reverse. -/
def readStringFrom (start : Nat) (chars : List (Option Char)) : Nat → Rest →
    Except ReadFault (List (Option Char) × Rest)
  | 0, _ => throw ⟨.unterminatedString, start⟩
  | fuel + 1, r =>
    match r.chars with
    | [] => throw ⟨.unterminatedString, start⟩
    | '"' :: _ => return (chars.reverse, r.drop 1)
    | '\\' :: 'u' :: more =>
      if more.length < 5 then throw ⟨.invalidUnicodeEscape, r.position + 1⟩
      else match readHex4 more with
        | none => throw ⟨.invalidUnicodeEscape, r.position + 1⟩
        | some high =>
          match isHighSurrogate high, more.drop 4 with
          | true, '\\' :: 'u' :: pair =>
            if pair.length < 5 then readStringFrom start (charOf? high :: chars) fuel (r.drop 6)
            else match readHex4 pair with
              | none => throw ⟨.invalidUnicodeEscape, r.position + 7⟩
              | some low =>
                if isLowSurrogate low then
                  let c := charOf? (0x10000 + (high - 0xD800) * 1024 + (low - 0xDC00))
                  readStringFrom start (c :: chars) fuel (r.drop 12)
                else readStringFrom start (charOf? high :: chars) fuel (r.drop 6)
          | _, _ => readStringFrom start (charOf? high :: chars) fuel (r.drop 6)
    | '\\' :: c :: _ =>
      match unescape? c with
      | some e => readStringFrom start (some e :: chars) fuel (r.drop 2)
      | none => throw ⟨.invalidEscape, r.position⟩
    | ['\\'] => throw ⟨.unterminatedString, start⟩
    | c :: _ =>
      if c.toNat < 32 then throw ⟨.controlCharacter, r.position⟩
      else readStringFrom start (some c :: chars) fuel (r.drop 1)

/-- Reads a string whose opening quote is the next character. -/
def readString (r : Rest) : Except ReadFault (List (Option Char) × Rest) :=
  readStringFrom r.position [] (r.chars.length + 1) (r.drop 1)

/-- The value of a run of ASCII digits. -/
def digitsValue (digits : List Char) : Nat :=
  digits.foldl (fun n c => 10 * n + (c.toNat - '0'.toNat)) 0

/-- The digits of a number before its point.  A zero stands by itself. -/
def wholeDigits : List Char → List Char
  | '0' :: _ => ['0']
  | chars => chars.takeWhile Char.isDigit

/-- The digits of a fraction after its point, if the text goes on with one. -/
def fractionDigits : List Char → List Char
  | '.' :: rest => rest.takeWhile Char.isDigit
  | _ => []

/-- The sign and digits of an exponent and the number of characters it takes. -/
def exponentPart : List Char → Option (Bool × List Char × Nat)
  | c :: rest =>
    if c = 'e' ∨ c = 'E' then
      let (negative, body, used) := match rest with
        | '-' :: more => (true, more, 2)
        | '+' :: more => (false, more, 2)
        | more => (false, more, 1)
      let digits := body.takeWhile Char.isDigit
      if digits.isEmpty then none else some (negative, digits, used + digits.length)
    else none
  | [] => none

/-- The number closest to `digits` times ten to `exponent`. -/
def realOf (negative : Bool) (digits : Nat) (exponent : Int) : Double :=
  let bounded : Int := max (-2000000) (min 2000000 exponent)
  let x :=
    if digits = 0 then 0.0
    else if bounded > 400 then 1.0 / 0.0
    else if bounded < 0 then Float.ofScientific digits true bounded.natAbs
    else Float.ofScientific digits false bounded.natAbs
  .ofFloat (if negative then -x else x)

/-- Reads a number.  It is whole unless it has a fraction or an exponent. -/
def readNumber (r : Rest) : Option (Json × Rest) :=
  let negative := r.startsWith '-'
  let unsigned := if negative then r.drop 1 else r
  let whole := wholeDigits unsigned.chars
  if whole.isEmpty then none
  else
    let afterWhole := unsigned.drop whole.length
    let fraction := fractionDigits afterWhole.chars
    let afterFraction :=
      if fraction.isEmpty then afterWhole else afterWhole.drop (fraction.length + 1)
    match exponentPart afterFraction.chars with
    | none =>
      if fraction.isEmpty then
        let n : Int := digitsValue whole
        some (.int (if negative then -n else n), afterWhole)
      else
        some (.real (realOf negative (digitsValue (whole ++ fraction)) (-(fraction.length : Int))),
          afterFraction)
    | some (below, digits, used) =>
      let magnitude : Int := digitsValue digits
      let exponent := (if below then -magnitude else magnitude) - fraction.length
      some (.real (realOf negative (digitsValue (whole ++ fraction)) exponent),
        afterFraction.drop used)

/-- The values that are spelled as words. -/
def words : List (List Char × Json) := [
  ("null".toList, .null),
  ("true".toList, .bool true),
  ("false".toList, .bool false),
  ("NaN".toList, .real (.ofFloat (0.0 / 0.0))),
  ("Infinity".toList, .real (.ofFloat (1.0 / 0.0))),
  ("-Infinity".toList, .real (.ofFloat (-1.0 / 0.0)))]

/-- Reads a word or a number. -/
def readScalar (r : Rest) : Except ReadFault (Json × Rest) :=
  match words.find? fun (word, _) => word.isPrefixOf r.chars with
  | some (word, value) => return (value, r.drop word.length)
  | none =>
    match readNumber r with
    | some result => return result
    | none => throw ⟨.expectedValue, r.position⟩

mutual

/-- Reads one value. -/
def readValue : Nat → Rest → Except ReadFault (Json × Rest)
  | 0, r => throw ⟨.expectedValue, r.position⟩
  | fuel + 1, r =>
    match r.chars with
    | '"' :: _ => do
      let (chars, rest) ← readString r
      return (ofChars chars, rest)
    | '[' :: _ =>
      let inner := (r.drop 1).skipSpace
      if inner.startsWith ']' then return (.array [], inner.drop 1)
      else readItems fuel [] inner
    | '\x7b' :: _ =>
      let inner := (r.drop 1).skipSpace
      if inner.startsWith '\x7d' then return (.object [], inner.drop 1)
      else readMembers fuel [] inner
    | _ => readScalar r

/-- Reads the items of an array from the next one on; `items` holds those before in reverse. -/
def readItems : Nat → List Json → Rest → Except ReadFault (Json × Rest)
  | 0, _, r => throw ⟨.expectedValue, r.position⟩
  | fuel + 1, items, r => do
    let (item, rest) ← readValue fuel r
    let rest := rest.skipSpace
    if rest.startsWith ']' then return (.array (item :: items).reverse, rest.drop 1)
    else if rest.startsWith ',' then readItems fuel (item :: items) (rest.drop 1).skipSpace
    else throw ⟨.expectedComma, rest.position⟩

/-- Reads the members of an object from the next one on; `members` holds those before. -/
def readMembers : Nat → List (String × Json) → Rest → Except ReadFault (Json × Rest)
  | 0, _, r => throw ⟨.expectedName, r.position⟩
  | fuel + 1, members, r => do
    if !r.startsWith '"' then throw ⟨.expectedName, r.position⟩
    let (key, rest) ← readString r
    let rest := rest.skipSpace
    if !rest.startsWith ':' then throw ⟨.expectedColon, rest.position⟩
    let (value, rest) ← readValue fuel (rest.drop 1).skipSpace
    let rest := rest.skipSpace
    let members := Members.put (shown key) value members
    if rest.startsWith '\x7d' then return (.object members, rest.drop 1)
    else if rest.startsWith ',' then readMembers fuel members (rest.drop 1).skipSpace
    else throw ⟨.expectedComma, rest.position⟩

end

/-- Reads a text that holds one value and nothing else. -/
def read (text : List Char) : Except ReadFault Json := do
  if text.head? = some '\uFEFF' then throw ⟨.byteOrderMark, 0⟩
  let (value, rest) ← readValue (2 * text.length + 2) (Rest.mk 0 text).skipSpace
  let rest := rest.skipSpace
  if rest.chars.isEmpty then return value else throw ⟨.extraData, rest.position⟩

end Courier.Json
