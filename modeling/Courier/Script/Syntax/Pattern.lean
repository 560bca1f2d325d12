import Courier.Script.Syntax.Signature

/-!
# Patterns

The left side of an assignment: a place, or a pattern of places that takes a value apart.
-/

namespace Courier.Script.Syntax

/-- Adds the default value that may follow a pattern. -/
def withDefault (kind : Kind) (pattern : Reader Tree) : Reader Tree := do
  let start ← position
  let pattern ← pattern
  match ← optional defaultValue with
  | none => return pattern
  | some value => nodeFrom start kind [pattern.filling .left, value.filling (.other "right")]

/-- A property with the pattern its value is matched with. -/
def pairPattern : Reader Tree := node .pairPattern do
  let key ← filling (.other "key") propertyName
  sign ":"
  return [key, ← filling .value (withDefault .assignmentPattern (goal .pattern))]

def objectPattern : Reader Tree := node .objectPattern <|
  between "\x7b" "\x7d" (listedWithHoles
    (restPattern <|> pairPattern <|>
      withDefault .objectAssignmentPattern (name .shorthandPropertyPattern)))

def arrayPattern : Reader Tree := node .arrayPattern <|
  between "[" "]" (listedWithHoles
    (restPattern <|> withDefault .assignmentPattern (goal .pattern)))

/-- Whether a node of this kind can be assigned to. -/
def isPlace (kind : Kind) : Bool :=
  kind == .identifier || kind == .memberExpression || kind == .subscriptExpression ||
    kind == .other "non_null_expression"

/-- A name, a property or an element, behind a chain that begins with a word. -/
def place : Reader Tree := do
  if (← nextWord).isEmpty then failure
  without do
    discard identifier
    sign "=>"
  let t ← goal .chain
  if isPlace t.kind then return t else failure

def pattern : Reader Tree := do
  match ← ahead with
  | '\x7b' :: _ => objectPattern
  | '[' :: _ => arrayPattern
  | _ => place

end Courier.Script.Syntax
