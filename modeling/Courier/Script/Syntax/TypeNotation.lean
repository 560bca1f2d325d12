import Courier.Script.Syntax.Callable

/-!
# Types

Types of the typed dialect.  The names of values that a type mentions are identifiers, the names of
types are not.
-/

namespace Courier.Script.Syntax

/-- A function type, or the type of what makes an instance. -/
def functionType : Reader Tree := node (.other "function_type") do
  optionally (word "abstract")
  optionally (word "new")
  let types ← maybe typeParameters
  let parameters ← filling .parameters formalParameters
  sign "=>"
  let result ← typePredicate <|> (do return [← goal .type])
  return types ++ parameters :: result

/-- A property or method of an object type. -/
def typeMember : Reader Tree := do
  let start ← position
  let called : Reader Tree := do
    optionally (word "new")
    nodeFrom start (.other "call_signature") (← callSignature)
  let named : Reader Tree := do
    discard (many (modifier ["readonly", "get", "set", "static", "async"]))
    let own ← filling .name propertyName
    optionally (sign "?")
    let asMethod := do
      nodeFrom start (.other "method_signature") (own :: (← callSignature))
    let asProperty := do
      nodeFrom start (.other "property_signature") (own :: (← maybe typeAnnotation))
    asMethod <|> asProperty
  indexSignature <|> called <|> named

/-- The end of a member of an object type. -/
def memberEnd : Reader Unit := do
  signOf [",", ";"] <|> (do if !(← mayEnd false) then failure)

def objectType : Reader Tree := node (.other "object_type") <|
  between "\x7b" "\x7d" do
    optionally (signOf [",", ";"])
    many do
      let m ← typeMember
      memberEnd
      return m

/-- A member of a tuple type, which may have a name. -/
def tupleMember : Reader Tree := node (.other "tuple_member") do
  optionally (sign "...")
  let named : Reader (List Tree) := do
    let own ← identifier
    optionally (sign "?")
    return [own, ← typeAnnotation]
  let plain : Reader (List Tree) := do
    let type ← goal .type
    optionally (sign "?")
    return [type]
  named <|> plain

def tupleType : Reader Tree := node (.other "tuple_type") <|
  between "[" "]" (listedLoosely tupleMember)

/-- A type with its name, which may stand in modules. -/
def namedType : Reader Tree := do
  let start ← position
  let modules ← many do
    let m ← leaf .identifier wordLength?
    sign "."
    return m
  let own ← leaf (.other "type_identifier") wordLength?
  let types ← maybe typeArguments
  nodeFrom start (.other "generic_type") (modules ++ own :: types)

/-- The type of a value. -/
def typeQuery : Reader Tree := node (.other "type_query") do
  word "typeof"
  let start ← position
  let first ← keyword "this" <|> identifier
  let subject ← followAll (fun object => do
    sign "."
    let property ← property
    nodeFrom start .memberExpression [object.filling .object, property.filling .property]) first
  return subject :: (← maybe typeArguments)

/-- A type that another module exports. -/
def importedType : Reader Tree := node (.other "import_type") do
  word "import"
  let path ← between "(" ")" (leaf (.other "string") stringLength?)
  let names ← many do sign "."; leaf (.other "type_identifier") wordLength?
  return path :: names ++ (← maybe typeArguments)

/-- A template whose parts are types. -/
def templateType : Reader Tree := node (.other "template_literal_type") do
  mark "`"
  let parts ← many do
    discard (lexemeHere fun cs => some (runLength templateUnit? cs))
    discard (lexemeHere (literally "$\x7b"))
    let type ← goal .type
    mark "\x7d"
    return type
  discard (lexemeHere fun cs => some (runLength templateUnit? cs))
  discard (lexemeHere (literally "`"))
  return parts

/-- Words in front of a type that make another type of it. -/
def typeOperators : List String := ["keyof", "unique", "readonly", "infer"]

def parenthesizedType : Reader Tree := node (.other "parenthesized_type") <|
  between "(" ")" do return [← goal .type]

/-- The type of one negative number. -/
def negativeType : Reader Tree := node (.other "literal_type") do
  sign "-"
  return [← leaf (.other "number") numberLength?]

def primaryType : Reader Tree := do
  match ← ahead with
  | '(' :: _ => functionType <|> parenthesizedType
  | '<' :: _ => functionType
  | '\x7b' :: _ => objectType
  | '[' :: _ => tupleType
  | '`' :: _ => templateType
  | '"' :: _ | '\'' :: _ => leaf (.other "string") stringLength?
  | '-' :: _ => negativeType
  | '*' :: _ => leaf (.other "existential_type") (literally "*")
  | c :: _ =>
    if c.isDigit then leaf (.other "number") numberLength?
    else match ← nextWord with
      | "typeof" => typeQuery
      | "import" => importedType
      | "new" => functionType
      | "abstract" => functionType <|> namedType
      | w =>
        if ["this", "null", "true", "false", "undefined", "void"].contains w then
          leaf (.other w) wordLength?
        else namedType
  | [] => failure

/-- A list of members of a type, or one of them. -/
def typeStep (start : Nat) (t : Tree) : Reader Tree := do
  if ← mayEnd false then failure
  nodeFrom start (.other "array_type") (t :: (← between "[" "]" (maybe (goal .type))))

/-- A type with operators in front and brackets behind. -/
def operatorType : Reader Tree := node (.other "operator_type") do
  discard (many do
    wordOf typeOperators
    if !(beginsName (← ahead) || (← succeeds (signOf ["(", "\x7b"]))) then failure)
  let start ← position
  return [← followAll (typeStep start) (← primaryType)]

/-- Types with a sign between them. -/
def combinedType (s : String) (kind : Kind) (part : Reader Tree) : Reader Tree := node kind do
  optionally (sign s)
  let first ← part
  return first :: (← many do sign s; part)

def type : Reader Tree := node (.other "type") do
  let subject ← combinedType "|" (.other "union_type")
    (combinedType "&" (.other "intersection_type") operatorType)
  let choice ← maybeAll do
    if ← mayEnd false then failure
    word "extends"
    let bound ← goal .type
    sign "?"
    let first ← goal .type
    sign ":"
    return [bound, first, ← goal .type]
  return subject :: choice

end Courier.Script.Syntax
