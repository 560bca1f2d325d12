import Courier.Script.Syntax.Cursor

/-!
# Lexemes

The forms that words, numbers, strings, patterns and signs take in a script.  A lexer gives the
length of the lexeme a text begins with, if it begins with one of its class.
-/

namespace Courier.Script.Syntax

/-- The length of the lexeme at the start of a text, if there is one. -/
abbrev Lexer := List Char → Option Nat

/-- The length of as many lexemes in a row as the text begins with, `fuel` of them at most. -/
def repeatLength (unit : Lexer) : Nat → List Char → Nat
  | 0, _ => 0
  | fuel + 1, cs =>
    match unit cs with
    | none => 0
    | some n => n + repeatLength unit fuel (cs.drop n)

/-- The length of the lexemes of one class that a text begins with. -/
def runLength (unit : Lexer) (cs : List Char) : Nat := repeatLength unit cs.length cs

/-- A fixed lexeme. -/
def literally (lexeme : String) : Lexer := fun cs =>
  if lexeme.toList.isPrefixOf cs then some lexeme.length else none

/-! ## Words -/

def isHexDigit (c : Char) : Bool :=
  c.isDigit || ('a' ≤ c && c ≤ 'f') || ('A' ≤ c && c ≤ 'F')

/-- Signs that cannot be part of a word. -/
def signChars : List Char := ":;`\"'@#.,|^&<=>+-*/\\%?!~()[]\x7b\x7d".toList

/-- Characters words are made of. -/
def isWordChar (c : Char) : Bool := 0x20 ≤ c.toNat && !isGap c && !signChars.contains c

/-- A character written as its number in hexadecimal digits, after the backslash and the `u`. -/
def codePointLength? : Lexer
  | '\x7b' :: cs =>
    let digits := cs.takeWhile isHexDigit
    if !digits.isEmpty && (cs.drop digits.length).head? == some '\x7d' then some (digits.length + 2)
    else none
  | cs => if (cs.takeWhile isHexDigit).length ≥ 4 then some 4 else none

/-- One character of a word, which may be written as its number. -/
def wordUnit? : Lexer
  | '\\' :: 'u' :: cs => (codePointLength? cs).map (· + 2)
  | c :: _ => if isWordChar c then some 1 else none
  | [] => none

/-- A word begins with no digit. -/
def wordLength? : Lexer := fun cs =>
  if cs.head?.any Char.isDigit then none
  else match runLength wordUnit? cs with
    | 0 => none
    | n => some n

/-- A private name is a word after a hash sign. -/
def privateLength? : Lexer
  | '#' :: cs => (wordLength? cs).map (· + 1)
  | _ => none

/-! ## Numbers -/

/-- Digits with single underscores between them. -/
def digitsLength (isDigit : Char → Bool) : List Char → Nat
  | [] => 0
  | c :: '_' :: d :: cs =>
    if !isDigit c then 0 else if isDigit d then 2 + digitsLength isDigit (d :: cs) else 1
  | c :: cs => if isDigit c then 1 + digitsLength isDigit cs else 0

/-- A number in another base, after its mark. -/
def basedLength? (marks : List Char) (isDigit : Char → Bool) : Lexer
  | '0' :: mark :: cs =>
    if marks.contains mark then
      match digitsLength isDigit cs with
      | 0 => none
      | n => some (n + 2)
    else none
  | _ => none

/-- An exponent. -/
def exponentLength (cs : List Char) : Nat :=
  match cs with
  | e :: cs =>
    if e != 'e' && e != 'E' then 0
    else
      let sign := if cs.head? == some '+' || cs.head? == some '-' then 1 else 0
      match digitsLength Char.isDigit (cs.drop sign) with
      | 0 => 0
      | n => n + sign + 1
  | [] => 0

/-- Digits that may be followed by a fraction: a zero, or no more than one zero before the rest. -/
def isWhole (digits : List Char) : Bool :=
  match digits with
  | ['0'] => true
  | '0' :: d :: _ => d.isDigit && d != '0'
  | _ => true

/-- A decimal number. -/
def decimalLength? : Lexer := fun cs =>
  let whole := digitsLength Char.isDigit cs
  let after := cs.drop whole
  if after.head? == some '.' && isWhole (cs.take whole) then
    let fraction := digitsLength Char.isDigit (after.drop 1)
    if whole + fraction = 0 then none
    else some (whole + 1 + fraction + exponentLength (after.drop (1 + fraction)))
  else if whole = 0 then none
  else if isWhole (cs.take whole) then some (whole + exponentLength after)
  else some whole

/-- The length of a number that may be followed by the mark of a large integer. -/
def markedLength (cs : List Char) (n : Nat) : Nat :=
  if (cs.drop n).head? == some 'n' then n + 1 else n

def numberLength? : Lexer := fun cs =>
  let based := (basedLength? ['x', 'X'] isHexDigit cs).or
    ((basedLength? ['b', 'B'] (fun c => c == '0' || c == '1') cs).or
      (basedLength? ['o', 'O'] (fun c => '0' ≤ c && c ≤ '7') cs))
  match based with
  | some n => some (markedLength cs n)
  | none =>
    let whole := digitsLength Char.isDigit cs
    if whole > 0 && (cs.drop whole).head? == some 'n' then some (whole + 1) else decimalLength? cs

/-! ## Strings, templates and patterns -/

def isOctalDigit (c : Char) : Bool := '0' ≤ c && c ≤ '7'

/-- What may follow a backslash in a string. -/
def escapeLength? : Lexer
  | [] => none
  | 'x' :: cs => if ((cs.take 2).takeWhile isHexDigit).length = 2 then some 3 else none
  | 'u' :: cs => (codePointLength? cs).map (· + 1)
  | '\r' :: c :: _ => some (if isLineBreak c then 2 else 1)
  | c :: cs =>
    if isOctalDigit c then some (1 + ((cs.take 2).takeWhile isOctalDigit).length) else some 1

/-- One character of a string in the given quotes. -/
def stringUnit? (quote : Char) : Lexer
  | '\\' :: cs => (escapeLength? cs).map (· + 1)
  | c :: _ => if c == quote || c == '\n' || c == '\r' then none else some 1
  | [] => none

/-- A string in either kind of quotes. -/
def stringLength? : Lexer
  | [] => none
  | quote :: cs =>
    if quote != '"' && quote != '\'' then none
    else
      let n := runLength (stringUnit? quote) cs
      if (cs.drop n).head? == some quote then some (n + 2) else none

/-- One character of a template, outside what is put into it. -/
def templateUnit? : Lexer
  | '\\' :: cs => (escapeLength? cs).map (· + 1)
  | '$' :: '\x7b' :: _ => none
  | c :: _ => if c == '`' then none else some 1
  | [] => none

/-- One character of a class in a regular expression. -/
def classUnit? : Lexer
  | '\\' :: c :: _ => if c == '\n' then none else some 2
  | c :: _ => if c == ']' || c == '\n' || c == '\\' then none else some 1
  | [] => none

/-- One character or class of a regular expression. -/
def patternUnit? : Lexer
  | '\\' :: c :: _ => if c == '\n' then none else some 2
  | '[' :: cs =>
    let n := runLength classUnit? cs
    if (cs.drop n).head? == some ']' then some (n + 2) else none
  | c :: _ => if c == '/' || c == '\\' || c == '\n' then none else some 1
  | [] => none

/-- A regular expression with its flags. -/
def regexLength? : Lexer
  | '/' :: cs =>
    let n := runLength patternUnit? cs
    if n > 0 && (cs.drop n).head? == some '/' then
      some (n + 2 + ((cs.drop (n + 1)).takeWhile Char.isLower).length)
    else none
  | _ => none

/-! ## Signs -/

/-- The signs of a script, each before its own beginnings. -/
def signs : List String := [
  ">>>=", "...", "===", "!==", "**=", "<<=", ">>=", ">>>", "&&=", "||=", "??=",
  "=>", "==", "!=", "<=", ">=", "&&", "||", "??", "?.", "++", "--", "+=", "-=", "*=", "/=", "%=",
  "&=", "|=", "^=", "<<", ">>", "**",
  "\x7b", "\x7d", "(", ")", "[", "]", ";", ",", "<", ">", "+", "-", "*", "/", "%", "&", "|", "^",
  "!", "~", "?", ":", "=", ".", "@", "#"]

/-- Whether a question mark and a point are two signs, the point being part of a number. -/
def splitsOptionalMark : List Char → Bool
  | '?' :: '.' :: c :: _ => c.isDigit
  | _ => false

/-- The longest sign a text begins with. -/
def signAt? (cs : List Char) : Option String :=
  if splitsOptionalMark cs then some "?"
  else signs.find? fun s => s.toList.isPrefixOf cs

end Courier.Script.Syntax
