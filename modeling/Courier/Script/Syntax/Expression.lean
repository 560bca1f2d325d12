import Courier.Script.Syntax.Callable
import Courier.Script.Syntax.Pattern

/-!
# Expressions

An expression is a row of operands with operators between them, and maybe a choice between two
further expressions.  How tightly an operator binds is left open: all operands of one row are
children of one node.
-/

namespace Courier.Script.Syntax

/-! ## Literals -/

/-- A property written by its name alone. -/
def shorthandProperty : Reader Tree := name .shorthandProperty

def pair : Reader Tree := node (.other "pair") do
  let key ← filling (.other "key") propertyName
  sign ":"
  return [key, ← filling .value (goal .expression)]

def objectLiteral : Reader Tree := node (.other "object") <|
  between "\x7b" "\x7d" (listedWithHoles (spread <|> method <|> pair <|> shorthandProperty))

def arrayLiteral : Reader Tree := node (.other "array") <|
  between "[" "]" (listedWithHoles (spread <|> goal .expression))

/-- A value put into a template. -/
def substitution : Reader Tree := do
  discard (lexemeHere fun cs => some (runLength templateUnit? cs))
  let start := (← get).offset
  discard (lexemeHere (literally "$\x7b"))
  let value ← expressions
  mark "\x7d"
  nodeFrom start (.other "template_substitution") [value]

def template : Reader Tree := node (.other "template_string") do
  mark "`"
  let parts ← many substitution
  discard (lexemeHere fun cs => some (runLength templateUnit? cs))
  discard (lexemeHere (literally "`"))
  return parts

/-- A literal, or the same text as a pattern where a value is assigned to it. -/
def destructuring (literal : Reader Tree) : Reader Tree :=
  let alone := do
    let t ← literal
    without (sign "=")
    return t
  alone <|> node (.other "assignment_expression") do
    let left ← filling .left (goal .pattern)
    sign "="
    return [left, ← filling (.other "right") (goal .expression)]

/-! ## Operands -/

def parenthesized : Reader Tree := node (.other "parenthesized_expression") <|
  between "(" ")" do
    let inner ← expressions
    return inner :: (← maybe typeAnnotation)

/-- A word that is an expression of its own kind. -/
def constantWords : List String := ["this", "super", "true", "false", "null", "undefined"]

/-- Words that begin an expression and are no names where one begins. -/
def operatorWords : List String := [
  "function", "class", "new", "typeof", "void", "delete", "await", "yield", "import"]

/-- A module that is loaded when the call is made, or what a module says about itself. -/
def importOperand : Reader Tree := do
  let start ← position
  let subject ← keyword "import"
  let about := do
    sign "."
    word "meta"
    nodeFrom start (.other "meta_property") []
  let load := do
    before (sign "(")
    return .node { subject.label with kind := .other "import", isNamed := true } []
  about <|> load

/-- A name, the parameter of an arrow function, or a word with a meaning of its own. -/
def wordOperand : Reader Tree := do
  let w ← nextWord
  if constantWords.contains w then leaf (.other w) wordLength?
  else match w with
    | "function" => functionExpression
    | "class" => classOf (.other "class") false false
    | "import" => importOperand
    | "async" =>
      if ← endsLine w then identifier
      else functionExpression <|> arrowFunction <|> identifier
    | "abstract" => classOf (.other "class") false true <|> arrowFunction <|> identifier
    | _ =>
      if operatorWords.contains w then failure
      else arrowFunction <|> identifier

/-- An expression with the type it is taken for, which stands before it. -/
def typeAssertion : Reader Tree := node (.other "type_assertion") do
  return [← typeArguments, ← goal .operand]

/-- A private name, whose presence in an object is asked for. -/
def memberName : Reader Tree := do
  let own ← privateName
  before (word "in")
  return own

def primary : Reader Tree := do
  match ← ahead with
  | '(' :: _ => arrowFunction <|> parenthesized
  | '\x7b' :: _ => destructuring objectLiteral
  | '[' :: _ => destructuring arrayLiteral
  | '`' :: _ => template
  | '"' :: _ | '\'' :: _ => leaf (.other "string") stringLength?
  | '/' :: _ => leaf (.other "regex") regexLength?
  | '<' :: _ => goal .markup <|> (do inTyped; arrowFunction <|> typeAssertion)
  | '#' :: _ => memberName
  | '@' :: _ => classOf (.other "class") false false <|> classOf (.other "class") false true
  | c :: _ => if c.isDigit || c == '.' then leaf (.other "number") numberLength? else wordOperand
  | [] => failure

/-! ## What may follow an operand -/

/-- The sign before a property or an element of something that may be missing. -/
def chainMark : Reader Tree := do
  if (← nextSign) = some "?." then leaf (.other "optional_chain") (literally "?.") else failure

/-- One more access to a property or an element. -/
def accessStep (start : Nat) (object : Tree) : Reader Tree := do
  let object := object.filling .object
  let dotted := do
    let chain ← maybe chainMark
    if chain.isEmpty then sign "."
    let property ← filling .property property
    nodeFrom start .memberExpression (object :: chain ++ [property])
  let indexed := do
    let chain ← maybe (filling (.other "optional_chain") chainMark)
    let index ← filling .index (between "[" "]" expressions)
    nodeFrom start .subscriptExpression (object :: chain ++ [index])
  dotted <|> indexed

/-- A template behind an expression calls it. -/
def taggedStep (start : Nat) (callee : Tree) : Reader Tree := do
  let types ← maybe typeArguments
  let text ← filling (.other "arguments") template
  nodeFrom start .callExpression (callee.filling .function :: types ++ [text])

/-- One more call. -/
def callStep (start : Nat) (callee : Tree) : Reader Tree := do
  let chain ← maybe (filling (.other "optional_chain") chainMark)
  let types ← maybe typeArguments
  let given ← filling (.other "arguments") arguments
  nodeFrom start .callExpression (callee.filling .function :: chain ++ types ++ [given])

/-- A sign behind an expression that has to stand on the same line. -/
def trailingStep (start : Nat) (subject : Tree) : Reader Tree := do
  if ← mayEnd true then failure
  let counted := do
    signOf ["++", "--"]
    nodeFrom start (.other "update_expression") [subject]
  let present := do
    inTyped
    sign "!"
    nodeFrom start (.other "non_null_expression") [subject]
  counted <|> present

/-- What `new` makes an instance of: accesses and templates, but no call. -/
def constructed : Reader Tree := do
  let start ← position
  let subject ← newExpression <|> primary
  followAll (fun t => accessStep start t <|> taggedStep start t) subject
where
  /-- An instance as the subject of `new`. -/
  newExpression : Reader Tree := do
    if (← nextWord) = "new" then instanceOrTarget else failure
  /-- An instance, or the function that was called to make one. -/
  instanceOrTarget : Reader Tree := do
    let start ← position
    word "new"
    let target := do
      sign "."
      word "target"
      nodeFrom start (.other "meta_property") []
    let made := do
      let subject ← filling (.other "constructor") (goal .constructed)
      let types ← maybe do
        let types ← typeArguments
        if ← succeeds (sign "(") then return types else failure
      let given ← maybe (filling (.other "arguments") arguments)
      nodeFrom start (.other "new_expression") (subject :: types ++ given)
    target <|> made

/-- An operand with all accesses and calls behind it. -/
def chain : Reader Tree := do
  let start ← position
  let subject ← constructed.newExpression <|> primary
  followAll
    (fun t => accessStep start t <|> callStep start t <|> taggedStep start t <|> trailingStep start t)
    subject

/-! ## Operators -/

def prefixSigns : List String := ["!", "~", "-", "+", "++", "--"]

def prefixWords : List String := ["typeof", "void", "delete", "await"]

def assignmentSigns : List String := [
  "=", "+=", "-=", "*=", "/=", "%=", "^=", "&=", "|=", ">>=", ">>>=", "<<=", "**=", "&&=", "||=",
  "??="]

def binarySigns : List String := [
  "&&", "||", "??", "|", "^", "&", "==", "!=", "===", "!==", "<", "<=", ">", ">=", "<<", ">>",
  ">>>", "+", "-", "*", "/", "%", "**"]

/-- The kind of a node with an operator in front. -/
def prefixKind (w : String) : Kind :=
  if w = "await" then .other "await_expression"
  else if w = "++" || w = "--" then .other "update_expression"
  else .other "unary_expression"

/-- A value handed out by a generator. -/
def yielded : Reader Tree := node (.other "yield_expression") do
  word "yield"
  if ← mayEnd false then return []
  if (← optional (sign "*")).isSome then return [← goal .expression]
  maybe (goal .expression)

/-- A chain, and the value assigned to it if there is one. -/
def assigned : Reader Tree := do
  let start ← position
  let t ← goal .chain
  let assignment := do
    if !(isPlace t.kind || t.kind == .other "parenthesized_expression") then failure
    signOf assignmentSigns
    let value ← filling (.other "right") (goal .expression)
    nodeFrom start (.other "assignment_expression") [t.filling .left, value]
  assignment <|> return t

def operand : Reader Tree := do
  let w ← nextWord
  if w = "yield" then yielded
  else if prefixWords.contains w then node (prefixKind w) do
    word w
    return [← goal .operand]
  else match ← nextSign with
    | some s =>
      if prefixSigns.contains s then node (prefixKind s) do
        sign s
        return [← goal .operand]
      else assigned
    | none => assigned

/-- A type an expression is taken for, which stands behind it. -/
def typedTail : Reader Tree := do
  inTyped
  if ← mayEnd true then failure
  (do word "as"; keyword "const") <|> (do wordOf ["as", "satisfies"]; goal .type)

/-- The two further expressions of a choice. -/
def choiceTail : Reader (List Tree) := do
  sign "?"
  let first ← goal .expression
  sign ":"
  return [first, ← goal .expression]

/-- A row of operands with operators between them. -/
def rowOf (operator : Reader Unit) : Reader Tree := do
  let start ← position
  let first ← goal .operand
  let more ← many (typedTail <|> (do operator; goal .operand))
  if more.isEmpty then return first
  nodeFrom start (.other "binary_expression") (first :: more)

def expression : Reader Tree := do
  let start ← position
  let row ← rowOf (signOf binarySigns <|> wordOf ["in", "instanceof"])
  match ← optional choiceTail with
  | none => return row
  | some tail => nodeFrom start (.other "ternary_expression") (row :: tail)

end Courier.Script.Syntax
