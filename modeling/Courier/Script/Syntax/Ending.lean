import Courier.Script.Syntax.Lexeme

/-!
# Statements that end without a semicolon

A statement may end where the script ends, before a closing brace, or at the end of a line whose
successor cannot go on with it.  `endsHere` decides that for the text behind a token.
-/

namespace Courier.Script.Syntax

/-- The blanks behind which the end of a line is looked for. -/
def isPlainBlank (c : Char) : Bool :=
  isGap c && !(c.toNat == 0xA0 || c.toNat == 0x2007 || c.toNat == 0x200B || c.toNat == 0x202F ||
    c.toNat == 0x2060 || c.toNat == 0xFEFF)

/-- What follows plain blanks and comments. -/
def dropPlainGap : Nat → List Char → List Char
  | 0, cs => cs
  | fuel + 1, cs =>
    let cs := cs.dropWhile isPlainBlank
    match commentLength? cs with
    | none => cs
    | some n => dropPlainGap fuel (cs.drop n)

/-- Whether a word begins with a letter of a longer one. -/
def continuesWord (cs : List Char) : Bool := cs.head?.any Char.isAlpha

/-- Whether a text begins with `in` or `instanceof` as an operator. -/
def beginsWithRelation (cs : List Char) : Bool :=
  "in".toList.isPrefixOf cs && !continuesWord (cs.drop 2) ||
    "instanceof".toList.isPrefixOf cs && !continuesWord (cs.drop 10)

/-- Signs that always go on with the statement before them. -/
def continuingSigns : List Char := "`,:;*%><=?^|&/".toList

/-- Whether a line can be the first of a new statement.  In the typed dialect a bracket at its
start goes on only with an expression. -/
def beginsAnew (bracketContinues : Bool) : List Char → Bool
  | '.' :: cs => cs.head?.any Char.isDigit
  | '+' :: cs => cs.head? == some '+'
  | '-' :: cs => cs.head? == some '-'
  | '!' :: cs => cs.head? != some '='
  | '(' :: _ | '[' :: _ => !bracketContinues
  | c :: cs => !continuingSigns.contains c && !beginsWithRelation (c :: cs)
  | [] => true

/-- Whether a comment itself ends the statement: where no operator can follow, one that holds the
end of a line does, unless the statement is seen to go on behind it. -/
def commentEnds (comment after : List Char) : Bool :=
  (comment.any isLineBreak || "//".toList.isPrefixOf comment) &&
    (let next := dropPlainGap after.length after
     !next.isEmpty && next.head? != some ',' && next.head? != some '=')

/-- Whether a statement may end before the given text.  `afterOperand` says whether an operator
could follow. -/
def endsBefore (typed afterOperand : Bool) : Nat → List Char → Bool
  | 0, _ | _, [] => true
  | fuel + 1, c :: cs =>
    if c == '\x7d' then true
    else if isLineBreak c then
      beginsAnew (afterOperand || !typed) (dropPlainGap cs.length cs)
    else if isPlainBlank c then endsBefore typed afterOperand fuel cs
    else
      match commentLength? (c :: cs) with
      | none => false
      | some n =>
        let after := (c :: cs).drop n
        !afterOperand && commentEnds ((c :: cs).take n) after ||
          endsBefore typed afterOperand fuel after

/-- Whether a statement may end before the given text. -/
def endsHere (typed afterOperand : Bool) (cs : List Char) : Bool :=
  endsBefore typed afterOperand (cs.length + 1) cs

end Courier.Script.Syntax
