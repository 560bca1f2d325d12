import Courier.Text.Utf8

/-!
# Syntax trees of scripts

A node of a syntax tree spans a range of octets of its script, has a kind, may fill a field of its
parent, and has its children in order.  Only the kinds and fields that a rule of this library
mentions have constructors of their own.

Functions on trees are given by `Tree.fold`, which hands a node together with the results for its
children to one step; `fold_node` is its only equation.
-/

namespace Courier.Script

open Text (Utf8.Fault)

/-- The kind of a node. -/
inductive Kind where
  | program
  | statementBlock
  | switchBody
  | classStaticBlock
  | functionDeclaration
  | functionExpression
  | function
  | generatorFunctionDeclaration
  | generatorFunction
  | arrowFunction
  | methodDefinition
  | classDeclaration
  | variableDeclaration
  | lexicalDeclaration
  | variableDeclarator
  | forStatement
  | forInStatement
  | catchClause
  | callExpression
  | memberExpression
  | subscriptExpression
  | identifier
  | shorthandProperty
  | shorthandPropertyPattern
  | propertyIdentifier
  | pairPattern
  | assignmentPattern
  | objectAssignmentPattern
  | objectPattern
  | arrayPattern
  | restPattern
  | formalParameters
  | requiredParameter
  | optionalParameter
  | error
  | other (name : String)
  deriving DecidableEq, Repr, Inhabited

/-- The kinds with constructors of their own, under the names they have in grammars. -/
def Kind.named : List (String × Kind) := [
  ("program", .program),
  ("statement_block", .statementBlock),
  ("switch_body", .switchBody),
  ("class_static_block", .classStaticBlock),
  ("function_declaration", .functionDeclaration),
  ("function_expression", .functionExpression),
  ("function", .function),
  ("generator_function_declaration", .generatorFunctionDeclaration),
  ("generator_function", .generatorFunction),
  ("arrow_function", .arrowFunction),
  ("method_definition", .methodDefinition),
  ("class_declaration", .classDeclaration),
  ("variable_declaration", .variableDeclaration),
  ("lexical_declaration", .lexicalDeclaration),
  ("variable_declarator", .variableDeclarator),
  ("for_statement", .forStatement),
  ("for_in_statement", .forInStatement),
  ("catch_clause", .catchClause),
  ("call_expression", .callExpression),
  ("member_expression", .memberExpression),
  ("subscript_expression", .subscriptExpression),
  ("identifier", .identifier),
  ("shorthand_property_identifier", .shorthandProperty),
  ("shorthand_property_identifier_pattern", .shorthandPropertyPattern),
  ("property_identifier", .propertyIdentifier),
  ("pair_pattern", .pairPattern),
  ("assignment_pattern", .assignmentPattern),
  ("object_assignment_pattern", .objectAssignmentPattern),
  ("object_pattern", .objectPattern),
  ("array_pattern", .arrayPattern),
  ("rest_pattern", .restPattern),
  ("formal_parameters", .formalParameters),
  ("required_parameter", .requiredParameter),
  ("optional_parameter", .optionalParameter),
  ("ERROR", .error)]

/-- The kind a grammar calls `name`. -/
def Kind.ofName (name : String) : Kind := (Kind.named.lookup name).getD (.other name)

/-- What a child is to its parent. -/
inductive Field where
  | function
  | object
  | property
  | index
  | name
  | left
  | value
  | kind
  | parameters
  | parameter
  | body
  | initializer
  | other (name : String)
  deriving DecidableEq, Repr, Inhabited

/-- The fields with constructors of their own, under the names they have in grammars. -/
def Field.named : List (String × Field) := [
  ("function", .function),
  ("object", .object),
  ("property", .property),
  ("index", .index),
  ("name", .name),
  ("left", .left),
  ("value", .value),
  ("kind", .kind),
  ("parameters", .parameters),
  ("parameter", .parameter),
  ("body", .body),
  ("initializer", .initializer)]

/-- The field a grammar calls `name`. -/
def Field.ofName (name : String) : Field := (Field.named.lookup name).getD (.other name)

/-- A range of octets, from `start` up to and not including `stop`. -/
structure Span where
  start : Nat
  stop : Nat
  deriving DecidableEq, Repr, Inhabited

/-- What a node says about itself.  A node is `named` unless it stands for a fixed word or sign.
`hasError` marks a node that holds a syntax error somewhere, `isMissing` one that the text lacks;
`row` and `column` say where the node begins, counted from zero. -/
structure Label where
  kind : Kind
  span : Span
  field : Option Field := none
  isNamed : Bool := true
  hasError : Bool := false
  isMissing : Bool := false
  row : Nat := 0
  column : Nat := 0
  deriving DecidableEq, Repr, Inhabited

/-- A node with its children. -/
inductive Tree where
  | node (label : Label) (children : List Tree)
  deriving Repr, Inhabited

namespace Tree

def label : Tree → Label
  | .node label _ => label

def children : Tree → List Tree
  | .node _ children => children

def kind (t : Tree) : Kind := t.label.kind

def span (t : Tree) : Span := t.label.span

/-- The first child that fills a field. -/
def child? (field : Field) (t : Tree) : Option Tree :=
  t.children.find? fun c => c.label.field == some field

/-- The children that are named nodes. -/
def namedChildren (t : Tree) : List Tree := t.children.filter (·.label.isNamed)

/-- The same node as a filler of a field. -/
def filling (field : Field) : Tree → Tree
  | .node label children => .node { label with field := some field } children

/-! ## Folding -/

mutual

/-- The result for a tree from the results for its children, by one step. -/
def fold {α : Type} (step : Tree → List (Tree × α) → α) : Tree → α
  | .node label children => step (.node label children) (foldAll step children)

/-- `fold` for each tree of a list, beside the tree. -/
def foldAll {α : Type} (step : Tree → List (Tree × α) → α) : List Tree → List (Tree × α)
  | [] => []
  | t :: ts => (t, fold step t) :: foldAll step ts

end

theorem foldAll_eq_map {α : Type} (step : Tree → List (Tree × α) → α) (ts : List Tree) :
    foldAll step ts = ts.map fun t => (t, fold step t) := by
  induction ts with
  | nil => simp [foldAll]
  | cons t ts ih => simp [foldAll, ih]

theorem fold_node {α : Type} (step : Tree → List (Tree × α) → α) (t : Tree) :
    fold step t = step t (t.children.map fun c => (c, fold step c)) := by
  cases t with
  | node label children => simp [fold, foldAll_eq_map, Tree.children]

/-- All nodes of a tree, a node before its children. -/
def preorder : Tree → List Tree :=
  fold fun t results => t :: (results.map (·.2)).flatten

theorem preorder_eq (t : Tree) : t.preorder = t :: t.children.flatMap preorder := by
  rw [preorder, fold_node, List.map_map, List.flatMap]
  rfl

end Tree

/-! ## The text of a node -/

/-- The octets of a script. -/
abbrev Source := List UInt8

/-- The characters between two positions.  Positions beyond the end count as the end. -/
def Source.slice (source : Source) (start stop : Nat) : Except Utf8.Fault (List Char) :=
  Text.Utf8.decode ((source.drop start).take (stop - start))

/-- The characters a node spans. -/
def Source.textOf (source : Source) (t : Tree) : Except Utf8.Fault (List Char) :=
  source.slice t.span.start t.span.stop

end Courier.Script
