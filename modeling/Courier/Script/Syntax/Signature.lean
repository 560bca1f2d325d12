import Courier.Script.Syntax.Grammar

/-!
# Arguments, parameters and property names

The lists of arguments of a call and of parameters of a function, with the types they may have in
the typed dialect, the names of properties, and the decorators in front of what is declared.
-/

namespace Courier.Script.Syntax

/-- A value put into a list by its members. -/
def spread : Reader Tree := node (.other "spread_element") do
  sign "..."
  return [← goal .expression]

/-- Expressions with commas between them; one alone stands for itself. -/
def expressions : Reader Tree := do
  let start ← position
  match ← listed (goal .expression) with
  | [e] => return e
  | es => nodeFrom start (.other "sequence_expression") es

def arguments : Reader Tree := node (.other "arguments") <|
  between "(" ")" (listedWithHoles (spread <|> goal .expression))

def privateName : Reader Tree := leaf (.other "private_property_identifier") privateLength?

/-- A property after a point. -/
def property : Reader Tree := privateName <|> leaf .propertyIdentifier wordLength?

/-- A property where one is defined. -/
def propertyName : Reader Tree :=
  property <|> leaf (.other "string") stringLength? <|> leaf (.other "number") numberLength? <|>
    node (.other "computed_property_name") (between "[" "]" do return [← goal .expression])

/-! ## Decorators -/

/-- One more property of a decorator's chain. -/
def decoratorStep (start : Nat) (object : Tree) : Reader Tree := do
  sign "."
  let property ← property
  nodeFrom start .memberExpression [object.filling .object, property.filling .property]

/-- As many steps as there are, `fuel` of them at most. -/
def follow (step : Tree → Reader Tree) : Nat → Tree → Reader Tree
  | 0, t => return t
  | fuel + 1, t => do
    match ← optional (step t) with
    | none => return t
    | some t => follow step fuel t

/-- As many steps as there are. -/
def followAll (step : Tree → Reader Tree) (t : Tree) : Reader Tree := do
  follow step (← get).rest.length t

/-- Types between angle brackets. -/
def typeArguments : Reader Tree := node (.other "type_arguments") do
  inTyped
  mark "<"
  let types ← listedLoosely (goal .type)
  mark ">"
  return types

/-- The chain or call a decorator names. -/
def decoratorSubject : Reader Tree := do
  let start ← position
  let chain ← followAll (decoratorStep start) (← identifier)
  let call := do
    let types ← maybe typeArguments
    nodeFrom start .callExpression
      (chain.filling .function :: types ++ [(← arguments).filling (.other "arguments")])
  call <|> return chain

def decorator : Reader Tree := node (.other "decorator") do
  sign "@"
  return [← decoratorSubject <|>
    (do inTyped; node (.other "parenthesized_expression") (between "(" ")" do return [← expressions]))]

/-! ## Parameters -/

/-- A type after a colon. -/
def typeAnnotation : Reader Tree := node (.other "type_annotation") do
  inTyped
  sign ":"
  return [← goal .type]

/-- Further items of a pattern. -/
def restPattern : Reader Tree := node .restPattern do
  sign "..."
  return [← goal .pattern]

/-- What a declaration binds: a name or a pattern. -/
def binding : Reader Tree := do
  match ← ahead with
  | '\x7b' :: _ | '[' :: _ => goal .pattern
  | _ => identifier

def parameterPattern : Reader Tree :=
  restPattern <|> (do inTyped; keyword "this") <|> binding

/-- The value of something declared when no other is given. -/
def defaultValue : Reader Tree := do
  sign "="
  goal .expression

/-- A parameter of the plain dialect. -/
def plainParameter : Reader Tree := do
  let start ← position
  let pattern ← parameterPattern
  match ← optional defaultValue with
  | none => return pattern
  | some value =>
    nodeFrom start .assignmentPattern [pattern.filling .left, value.filling (.other "right")]

/-- Words in front of a parameter that make it a property as well. -/
def parameterModifiers : List String := ["public", "private", "protected", "override", "readonly"]

/-- A modifier of a parameter: a word from the list with a pattern behind it. -/
def parameterModifier : Reader Unit := do
  wordOf parameterModifiers
  before parameterPattern

/-- A parameter of the typed dialect. -/
def typedParameter : Reader Tree := do
  let start ← position
  let decorators ← many decorator
  discard (many parameterModifier)
  let pattern ← filling (.other "pattern") parameterPattern
  let isOptional := (← optional (sign "?")).isSome
  let type ← maybe (filling (.other "type") typeAnnotation)
  let value ← maybe (filling .value defaultValue)
  nodeFrom start (if isOptional then .optionalParameter else .requiredParameter)
    (decorators ++ pattern :: type ++ value)

def formalParameters : Reader Tree := node .formalParameters <|
  between "(" ")" (listedLoosely do
    if (← read).typed then typedParameter else plainParameter)

/-- A type parameter with its bound and its default. -/
def typeParameter : Reader Tree := node (.other "type_parameter") do
  discard (many do wordOf ["const", "in", "out"]; without (signOf [",", ">", "="]))
  let own ← leaf (.other "type_identifier") wordLength?
  let bound ← maybe do word "extends"; goal .type
  let given ← maybe do sign "="; goal .type
  return own :: bound ++ given

def typeParameters : Reader Tree := node (.other "type_parameters") do
  inTyped
  mark "<"
  let parameters ← listedLoosely typeParameter
  mark ">"
  return parameters

/-- What a function says about an argument by returning. -/
def typePredicate : Reader (List Tree) := do
  let subject := keyword "this" <|> identifier
  let asserted : Reader (List Tree) := do
    word "asserts"
    let subject ← subject
    return subject :: (← maybe do word "is"; goal .type)
  let plain : Reader (List Tree) := do
    let subject ← subject
    word "is"
    return [subject, ← goal .type]
  asserted <|> plain

/-- The type of what a function returns. -/
def returnType : Reader Tree := node (.other "type_annotation") do
  inTyped
  sign ":"
  typePredicate <|> (do return [← goal .type])

/-- The parameters of a function and the type of what it returns. -/
def callSignature : Reader (List Tree) := do
  let types ← maybe typeParameters
  let parameters ← filling .parameters formalParameters
  let result ← maybe returnType
  return types ++ parameters :: result

end Courier.Script.Syntax
