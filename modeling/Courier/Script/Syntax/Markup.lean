import Courier.Script.Syntax.Signature

/-!
# Markup

Elements written into a script of the plain dialect, with tags, attributes, text and expressions in
braces.
-/

namespace Courier.Script.Syntax

def isMarkupLetter (c : Char) : Bool := c.isAlpha || c == '_' || c == '$'

/-- A word with hyphens, or an ordinary word. -/
def markupWordLength? : Lexer := fun cs =>
  match cs with
  | c :: rest =>
    let n := (rest.takeWhile fun d => isMarkupLetter d || d.isDigit || d == '-').length + 1
    if isMarkupLetter c && (cs.take n).contains '-' then some n else wordLength? cs
  | [] => none

/-- A character written by its name or number. -/
def referenceLength? : Lexer
  | '&' :: cs =>
    let ended (n : Nat) : Option Nat := if (cs.drop n).head? == some ';' then some (n + 2) else none
    match cs with
    | '#' :: x :: rest =>
      let isHex := x == 'x' || x == 'X'
      let digits :=
        if isHex then (rest.takeWhile isHexDigit).length
        else ((x :: rest).takeWhile Char.isDigit).length
      if digits = 0 || digits > (if isHex then 6 else 5) then none
      else ended (digits + if isHex then 2 else 1)
    | _ =>
      let letters := (cs.takeWhile Char.isAlpha).length
      if letters = 0 || letters > 30 then none else ended letters
  | _ => none

/-- One character of the text between tags. -/
def textUnit? : Lexer
  | '&' :: cs => referenceLength? ('&' :: cs)
  | c :: _ => if "\x7b\x7d<>".toList.contains c then none else some 1
  | [] => none

/-- One character of a quoted attribute. -/
def attributeUnit? (quote : Char) : Lexer
  | '&' :: cs => some ((referenceLength? ('&' :: cs)).getD 1)
  | c :: _ => if c == quote then none else some 1
  | [] => none

/-- A quoted attribute, which may go over several lines. -/
def attributeLength? : Lexer
  | [] => none
  | quote :: cs =>
    if quote != '"' && quote != '\'' then none
    else
      let n := runLength (attributeUnit? quote) cs
      if (cs.drop n).head? == some quote then some (n + 2) else none

def markupWord (kind : Kind) : Reader Tree := leaf kind markupWordLength?

/-- The name of a tag, which may be a chain of properties or have a name in front. -/
def tagName : Reader Tree := do
  let start ← position
  let first ← markupWord .identifier
  let spaced := do
    sign ":"
    nodeFrom start (.other "jsx_namespace_name") [first, ← markupWord .identifier]
  let chained := followAll
    (fun object => do
      sign "."
      let property ← leaf .propertyIdentifier wordLength?
      nodeFrom start .memberExpression [object.filling .object, property.filling .property])
    first
  spaced <|> chained

/-- An expression in braces, which may be missing. -/
def embedded : Reader Tree := node (.other "jsx_expression") <|
  between "\x7b" "\x7d" (maybe (spread <|> expressions))

def attributeValue : Reader Tree :=
  leaf (.other "string") attributeLength? <|> embedded <|> goal .markup

def markupAttribute : Reader Tree :=
  embedded <|> node (.other "jsx_attribute") do
    let own ← markupWord .propertyIdentifier
    let space ← maybe do sign ":"; markupWord .propertyIdentifier
    return own :: space ++ (← maybe do sign "="; attributeValue)

/-- The tag that closes an element.  Its name is not compared. -/
def closingTag : Reader Tree := node (.other "jsx_closing_element") do
  mark "<"
  mark "/"
  let own ← maybe (filling .name tagName)
  mark ">"
  return own

/-- What stands between two tags. -/
def markupChild : Reader Tree := do
  discard (optional (lexemeHere fun cs => some (runLength textUnit? cs)))
  embedded <|> goal .markup

/-- An element, or some without a tag around them. -/
def markup : Reader Tree := do
  let start ← position
  inPlain
  mark "<"
  let head ← maybeAll do
    let own ← filling .name tagName
    return own :: (← many markupAttribute)
  let alone := do
    if head.isEmpty then failure
    mark "/"
    mark ">"
    nodeFrom start (.other "jsx_self_closing_element") head
  let around := do
    mark ">"
    let opening ← nodeFrom start (.other "jsx_opening_element") head
    let children ← many markupChild
    discard (lexemeHere fun cs => some (runLength textUnit? cs))
    let closing ← closingTag
    nodeFrom start (.other "jsx_element") (opening :: children ++ [closing])
  alone <|> around

end Courier.Script.Syntax
