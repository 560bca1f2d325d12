import Courier.Text.Blank
import Courier.Text.Digit
import Courier.Text.Lines
import Courier.Text.Numeral

/-!
# Placeholders

A placeholder is a name in double braces.  It may stand anywhere in an address, next to characters
that are significant in addresses and around such characters as well.  For taking an address apart
its placeholders are masked, each by a token that holds nothing significant: a mark, the number of
the placeholder, and two underscores.  The parts are unmasked afterwards.

`pieces` reads a text as characters and placeholders.  The mark is chosen so that it does not occur
in the text.
-/

namespace Courier.Url

open Text (isBlank isDecimal digitValue? contains)

/-- A character that may stand in the name of a placeholder. -/
def isNameChar (c : Char) : Bool := c != '\x7b' && c != '\x7d' && !isBlank c

/-- The name of the placeholder a text begins with. -/
def leadingName? : List Char → Option (List Char)
  | '\x7b' :: '\x7b' :: rest =>
    let name := rest.takeWhile isNameChar
    if !name.isEmpty && "\x7d\x7d".toList.isPrefixOf (rest.dropWhile isNameChar) then some name
    else none
  | _ => none

/-- A character or a placeholder. -/
inductive Piece where
  | char (c : Char)
  | placeholder (name : List Char)
  deriving DecidableEq, Repr

/-- A piece as it is written. -/
def Piece.text : Piece → List Char
  | .char c => [c]
  | .placeholder name => "\x7b\x7b".toList ++ name ++ "\x7d\x7d".toList

/-- Reads a text as pieces, placeholders as far to the left as possible. -/
def pieces (s : List Char) : List Piece :=
  match s with
  | [] => []
  | c :: rest =>
    match leadingName? (c :: rest) with
    | some name => .placeholder name :: pieces (rest.drop (name.length + 3))
    | none => .char c :: pieces rest
termination_by s.length
decreasing_by all_goals (simp only [List.length_drop, List.length_cons]; omega)

/-- The names of the placeholders among pieces. -/
def placeholderNames (ps : List Piece) : List (List Char) :=
  ps.filterMap fun p => match p with
    | .placeholder name => some name
    | .char _ => none

/-- The items of a list without repetitions, in the order of their first occurrence. -/
def distinct (names : List (List Char)) : List (List Char) :=
  names.foldl (fun seen name => if seen.contains name then seen else seen ++ [name]) []

/-- The names of the placeholders in a text, each once. -/
def variablesOf (s : List Char) : List (List Char) := distinct (placeholderNames (pieces s))

/-! ## Masking -/

/-- The shortest mark. -/
def baseMark : List Char := "__var".toList

/-- Puts underscores before a mark until it does not occur in the text, as many as `tries` at
most. -/
def extendMark (s : List Char) : Nat → List Char → List Char
  | 0, mark => mark
  | tries + 1, mark => if contains mark s then extendMark s tries ('_' :: mark) else mark

/-- A mark that does not occur in a text.  A mark that is longer than the text cannot occur in it,
so enough marks are tried. -/
def markFor (s : List Char) : List Char := extendMark s s.length baseMark

/-- The token for the placeholder of a number. -/
def token (mark : List Char) (number : Nat) : List Char :=
  mark ++ (toString number).toList ++ "__".toList

/-- Writes pieces with tokens for placeholders, numbered from `number` on. -/
def maskFrom (mark : List Char) (number : Nat) : List Piece → List Char
  | [] => []
  | .char c :: rest => c :: maskFrom mark number rest
  | .placeholder _ :: rest => token mark number ++ maskFrom mark (number + 1) rest

/-! ## Unmasking -/

/-- The digits of the token a text begins with. -/
def leadingDigits? (mark s : List Char) : Option (List Char) :=
  if mark.isPrefixOf s then
    let rest := s.drop mark.length
    let digits := rest.takeWhile isDecimal
    if !digits.isEmpty && "__".toList.isPrefixOf (rest.dropWhile isDecimal) then some digits
    else none
  else none

/-- Why a token cannot be unmasked: there is no placeholder of its number, or the number has too
many digits. -/
inductive TokenFault where
  | unknown
  | tooLong (digits : Nat)
  deriving DecidableEq, Repr

/-- How placeholders are masked: the mark of the tokens, and the placeholders in order. -/
structure Mask where
  mark : List Char
  names : List (List Char)
  deriving DecidableEq, Repr

/-- The mask for a text. -/
def Mask.ofText (s : List Char) : Mask := ⟨markFor s, placeholderNames (pieces s)⟩

/-- A text under its mask. -/
def Mask.apply (m : Mask) (s : List Char) : List Char := maskFrom m.mark 0 (pieces s)

/-- The placeholder for the digits of a token. -/
def Mask.placeholder (m : Mask) (digits : List Char) : Except TokenFault (List Char) :=
  if digits.length > Text.maxNumeralDigits then .error (.tooLong digits.length)
  else
    match m.names[digits.foldl (fun n d => 10 * n + (digitValue? d).getD 0) 0]? with
    | some name => .ok (Piece.placeholder name).text
    | none => .error .unknown

/-- Puts the placeholders back in place of their tokens. -/
def Mask.restore (m : Mask) (s : List Char) : Except TokenFault (List Char) :=
  match s with
  | [] => .ok []
  | c :: rest =>
    match leadingDigits? m.mark (c :: rest) with
    | some digits => do
      let placeholder ← m.placeholder digits
      let tail ← m.restore (rest.drop (m.mark.length + digits.length + 1))
      return placeholder ++ tail
    | none => do
      let tail ← m.restore rest
      return c :: tail
termination_by s.length
decreasing_by all_goals (simp only [List.length_drop, List.length_cons]; omega)

end Courier.Url
