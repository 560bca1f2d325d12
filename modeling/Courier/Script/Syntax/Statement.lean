import Courier.Script.Syntax.Expression

/-!
# Statements

Statements, declarations, and what a script takes from other modules and gives to them.  Only words
that begin nothing else are left to expressions.
-/

namespace Courier.Script.Syntax

/-- The node of a statement that has no kind of its own. -/
def statementOf (name : String) (children : Reader (List Tree)) : Reader Tree :=
  node (.other name) children

/-! ## Blocks -/

def block : Reader Tree := node .statementBlock <|
  between "\x7b" "\x7d" (many (goal .statement))

/-! ## Declarations of variables -/

def variableDeclarator : Reader Tree := node .variableDeclarator do
  let own ← filling .name binding
  if (← read).typed then optionally (sign "!")
  let type ← maybe typeAnnotation
  return own :: type ++ (← maybe (filling .value defaultValue))

/-- Whether the last declarator has a type or a value, so that an operator could follow. -/
def endsInOperand (declarators : List Tree) : Bool :=
  declarators.getLast?.any fun d => d.children.length > 1

def declarators (kind : Kind) (word : Reader Tree) : Reader Tree := node kind do
  let word ← filling .kind word
  let declarators ← listed variableDeclarator
  semicolon (endsInOperand declarators)
  return word :: declarators

def variableDeclaration : Reader Tree := declarators .variableDeclaration (keyword "var")

def lexicalDeclaration : Reader Tree :=
  declarators .lexicalDeclaration (keyword "let" <|> keyword "const")

/-! ## Control flow -/

def elseClause : Reader Tree := statementOf "else_clause" do
  word "else"
  return [← goal .statement]

def ifStatement : Reader Tree := statementOf "if_statement" do
  word "if"
  let condition ← parenthesized
  let consequence ← goal .statement
  return condition :: consequence :: (← maybe elseClause)

def switchCase : Reader Tree := statementOf "switch_case" do
  let head ← (do word "case"; return [← filling .value expressions]) <|>
    (do word "default"; return [])
  sign ":"
  return head ++ (← many (goal .statement))

def switchStatement : Reader Tree := statementOf "switch_statement" do
  word "switch"
  let subject ← filling .value parenthesized
  return [subject, ← filling .body (node .switchBody (between "\x7b" "\x7d" (many switchCase)))]

/-- The variable of a loop over members: declared in the loop, or any place.  A variable may be
given a first value, and `let` is a name where `of` follows it. -/
def loopVariable : Reader (List Tree) := do
  let declaredBy (w : Reader Tree) : Reader (List Tree) := do
    let word ← filling .kind w
    let own ← filling .left binding
    return word :: own :: (← maybeAll do
      inTyped
      return [← typeAnnotation])
  let blockwise := declaredBy (keyword "let" <* without (word "of") <|> keyword "const")
  let functionwise : Reader (List Tree) := do
    let declared ← declaredBy (keyword "var")
    let whole := filling .value defaultValue <* before (wordOf ["in", "of"])
    let short := do sign "="; filling .value (rowOf (signOf binarySigns <|> word "instanceof"))
    return declared ++ (← maybe (whole <|> short))
  let place := filling .left (parenthesized <|> goal .pattern)
  blockwise <|> functionwise <|> (do return [← place])

/-- A loop over the members of a value. -/
def memberLoop : Reader Tree := node .forInStatement do
  word "for"
  optionally (word "await")
  let head ← between "(" ")" do
    let declared ← loopVariable
    wordOf ["in", "of"]
    return declared ++ [(← expressions).filling (.other "right")]
  return head ++ [← filling .body (goal .statement)]

def emptyStatement : Reader Tree := statementOf "empty_statement" do sign ";"; return []

/-- A loop with a start, a condition and a step, each of which may be missing. -/
def countedLoop : Reader Tree := node .forStatement do
  word "for"
  let ended : Reader Tree := do
    let e ← expressions
    sign ";"
    return e
  let head ← between "(" ")" do
    let first ← filling .initializer
      (lexicalDeclaration <|> variableDeclaration <|> ended <|> emptyStatement)
    let condition ← ended <|> emptyStatement
    return first :: condition :: (← maybe expressions)
  return head ++ [← filling .body (goal .statement)]

def whileStatement : Reader Tree := statementOf "while_statement" do
  word "while"
  return [← parenthesized, ← goal .statement]

def doStatement : Reader Tree := statementOf "do_statement" do
  word "do"
  let body ← goal .statement
  word "while"
  let condition ← parenthesized
  optionally (semicolon false)
  return [body, condition]

def catchClause : Reader Tree := node .catchClause do
  word "catch"
  let parameter ← maybeAll <| between "(" ")" do
    let p ← filling .parameter binding
    return p :: (← maybe typeAnnotation)
  return parameter ++ [← filling .body block]

def tryStatement : Reader Tree := statementOf "try_statement" do
  word "try"
  let body ← block
  let handler ← maybe catchClause
  let finalizer ← maybe (statementOf "finally_clause" do word "finally"; return [← block])
  return body :: handler ++ finalizer

def withStatement : Reader Tree := statementOf "with_statement" do
  word "with"
  return [← parenthesized, ← goal .statement]

/-- A statement that leaves or repeats another one, which may be named. -/
def jumpStatement (w : String) : Reader Tree := statementOf s!"{w}_statement" do
  word w
  if ← mayEnd false then return []
  let target ← maybe (name (.other "statement_identifier"))
  semicolon false
  return target

/-- A statement that hands over a value, which may be missing where `needed` is false. -/
def valueStatement (w : String) (needed : Bool) : Reader Tree :=
  statementOf s!"{w}_statement" do
    word w
    if !needed then
      if ← mayEnd false then return []
      if (← optional (sign ";")).isSome then return []
    let value ← expressions
    semicolon true
    return [value]

def debuggerStatement : Reader Tree := statementOf "debugger_statement" do
  word "debugger"
  semicolon false
  return []

def labeledStatement : Reader Tree := statementOf "labeled_statement" do
  let label ← name (.other "statement_identifier")
  sign ":"
  return [label, ← goal .statement]

def expressionStatement : Reader Tree := statementOf "expression_statement" do
  let e ← expressions
  semicolon true
  return [e]

/-! ## Functions and classes -/

/-- A declared function.  In the typed dialect its body may be missing. -/
def functionDeclaration : Reader Tree := do
  let start ← position
  if ← endsLine "async" then failure
  optionally (word "async")
  word "function"
  let isGenerator := (← optional (sign "*")).isSome
  let own ← filling .name identifier
  let signature ← callSignature
  let complete := do
    let body ← functionBody
    let kind := if isGenerator then .generatorFunctionDeclaration else .functionDeclaration
    nodeFrom start kind (own :: signature ++ [body])
  let bare := do
    inTyped
    semicolon false
    nodeFrom start (.other "function_signature") (own :: signature)
  complete <|> bare

def classDeclaration : Reader Tree :=
  classOf .classDeclaration true false <|> classOf (.other "abstract_class_declaration") true true

end Courier.Script.Syntax
