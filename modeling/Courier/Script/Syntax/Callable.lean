import Courier.Script.Syntax.Signature

/-!
# Functions, methods and classes
-/

namespace Courier.Script.Syntax

/-! ## Functions -/

/-- The body of a function. -/
def functionBody : Reader Tree := filling .body (goal .block)

/-- A function that is a value. -/
def functionExpression : Reader Tree := do
  let start ← position
  optionally (word "async")
  word "function"
  let isGenerator := (← optional (sign "*")).isSome
  let own ← maybe (filling .name identifier)
  let signature ← callSignature
  let body ← functionBody
  nodeFrom start (if isGenerator then .generatorFunction else .functionExpression)
    (own ++ signature ++ [body])

/-- Words that begin a statement and nothing else. -/
def statementWords : List String := [
  "break", "case", "const", "continue", "debugger", "default", "do", "else", "for", "if", "return",
  "switch", "throw", "try", "var", "while", "with"]

/-- A block, or else something that begins with a brace too.  A word that begins a statement
decides for the block. -/
def blockOr (other : Reader Tree) : Reader Tree := do
  let decided ← succeeds do
    sign "\x7b"
    wordOf statementWords
  if decided then goal .block else goal .block <|> other

/-- The body of an arrow function.  A brace opens a block if it can. -/
def arrowBody : Reader Tree := filling .body do
  match ← ahead with
  | '\x7b' :: _ => blockOr (goal .expression)
  | _ => goal .expression

/-- An arrow function, from its parameters on. -/
def arrow : Reader (List Tree) := do
  let head ← (do return [← filling .parameter identifier]) <|> callSignature
  sign "=>"
  return head ++ [← arrowBody]

def arrowFunction : Reader Tree := node .arrowFunction do
  let asynchronous : Reader (List Tree) := do
    word "async"
    arrow
  asynchronous <|> arrow

/-! ## Methods -/

/-- Whether a property name comes next. -/
def beginsName (cs : List Char) : Bool :=
  match cs with
  | '"' :: _ | '\'' :: _ | '[' :: _ | '#' :: _ | '*' :: _ => true
  | c :: _ => isWordChar c || c == '\\'
  | [] => false

/-- A word in front of a member, with more of the member behind it. -/
def modifier (words : List String) : Reader Unit := do
  wordOf words
  if !(beginsName (← ahead)) then failure

/-- The words in front of a member of a class. -/
def memberWords : Reader (List String) := do
  let common := ["static", "async", "get", "set"]
  if (← read).typed then
    return common ++ ["public", "private", "protected", "override", "readonly", "abstract",
      "declare", "accessor"]
  else return common

/-- A method of a class or an object.  In the typed dialect its body may be missing. -/
def method : Reader Tree := do
  let start ← position
  let decorators ← many decorator
  discard (many do modifier (← memberWords))
  optionally (sign "*")
  let own ← filling .name propertyName
  if (← read).typed then optionally (signOf ["?", "!"])
  let signature ← callSignature
  let complete := do
    let body ← functionBody
    nodeFrom start .methodDefinition (decorators ++ own :: signature ++ [body])
  let bare := do
    inTyped
    semicolon false
    nodeFrom start (.other "method_signature") (decorators ++ own :: signature)
  complete <|> bare

/-! ## Classes -/

/-- A property of the instances of a class. -/
def fieldDefinition : Reader Tree := node (.other "field_definition") do
  let decorators ← many decorator
  discard (many do modifier (← memberWords))
  let own ← filling .property propertyName
  if (← read).typed then optionally (signOf ["?", "!"])
  let type ← maybe typeAnnotation
  let value ← maybe (filling .value defaultValue)
  semicolon !(type.isEmpty && value.isEmpty)
  return decorators ++ own :: type ++ value

/-- Statements that run when a class is set up. -/
def staticBlock : Reader Tree := node .classStaticBlock do
  word "static"
  return [← functionBody]

/-- A declaration of the type of all properties of a kind. -/
def indexSignature : Reader Tree := node (.other "index_signature") do
  inTyped
  optionally (signOf ["+", "-"])
  optionally (word "readonly")
  let key ← between "[" "]" do
    let own ← identifier
    let named := do sign ":"; return [own, ← goal .type]
    let mapped := do
      word "in"
      let domain ← goal .type
      return own :: domain :: (← maybe do word "as"; goal .type)
    named <|> mapped
  optionally (signOf ["+", "-"])
  optionally (sign "?")
  return key ++ (← maybe typeAnnotation)

/-- One member of a class, or a semicolon between two. -/
def classMember : Reader (List Tree) := do
  let one (r : Reader Tree) : Reader (List Tree) := do return [← r]
  (do sign ";"; return []) <|> one staticBlock <|>
    (do let m ← method; optionally (sign ";"); return [m]) <|>
    (do let s ← indexSignature; semicolon false; return [s]) <|> one fieldDefinition

def classBody : Reader Tree := node (.other "class_body") do
  between "\x7b" "\x7d" do return (← many classMember).flatten

/-- The class another one extends, and the interfaces it implements. -/
def heritage : Reader (List Tree) := do
  let extended ← maybeAll do
    word "extends"
    let value ← if (← read).typed then goal .operand else goal .expression
    return value :: (← maybe typeArguments)
  let implemented ← maybeAll do
    inTyped
    word "implements"
    listed (goal .type)
  return extended ++ implemented

/-- The name of a class. -/
def className : Reader Tree := do
  if (← read).typed then
    if (← nextWord) = "extends" || (← nextWord) = "implements" then failure
    leaf (.other "type_identifier") wordLength?
  else identifier

/-- A class with a name, or without one where that is allowed.  The typed dialect has abstract
classes. -/
def classOf (kind : Kind) (isNamed isAbstract : Bool) : Reader Tree := node kind do
  let decorators ← many decorator
  if isAbstract then
    inTyped
    word "abstract"
  word "class"
  let own ← if isNamed then (do return [← filling .name className])
    else maybe (filling .name className)
  let types ← maybe typeParameters
  let above ← heritage
  return decorators ++ own ++ types ++ above ++ [← filling .body classBody]

end Courier.Script.Syntax
