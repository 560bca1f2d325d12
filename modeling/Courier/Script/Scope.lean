import Courier.Script.Tree

/-!
# Scopes and references

Which identifiers of a script refer to one declared variable.  A declaration made with `var` binds
in the enclosing function or program, any other declaration in the enclosing block, switch body or
loop head.  A reference is found by walking down from the scope of the declaration; a node that
declares the name again is left out of the walk with everything below it.

Names are compared by the text their nodes span, so every question can fail with the fault of a
span that cuts through a character.  Where several spans are faulty, the walk goes from the last
child to the first, and the fault it meets first is the one reported.
-/

namespace Courier.Script

open Text (Utf8.Fault)

/-- Kinds whose nodes open a function scope. -/
def Kind.isFunction : Kind → Bool
  | .functionDeclaration | .functionExpression | .function | .generatorFunctionDeclaration
  | .generatorFunction | .arrowFunction | .methodDefinition => true
  | _ => false

/-- Kinds whose nodes hold a list of statements with a scope of its own. -/
def Kind.isBlock : Kind → Bool
  | .program | .statementBlock | .switchBody | .classStaticBlock => true
  | _ => false

/-- Kinds of nodes that are a name written in the script. -/
def Kind.isName : Kind → Bool
  | .identifier | .shorthandProperty | .shorthandPropertyPattern => true
  | _ => false

/-- The scope a `var` declaration may bind in. -/
def Kind.isVarScope (k : Kind) : Bool := k.isFunction || k == .program

/-- The result for the first child that fills a field. -/
def pick? {α : Type} (field : Field) (results : List (Tree × α)) : Option α :=
  (results.find? fun (c, _) => c.label.field == some field).map (·.2)

/-! ## Bindings -/

/-- The identifiers that a declared name, a pattern or a parameter list binds. -/
def bindings : Tree → List Tree :=
  Tree.fold fun pattern results =>
    match pattern.kind with
    | .identifier | .shorthandPropertyPattern => [pattern]
    | .pairPattern => (pick? .value results).getD []
    | .assignmentPattern | .objectAssignmentPattern => (pick? .left results).getD []
    | .objectPattern | .arrayPattern | .restPattern | .formalParameters | .requiredParameter
    | .optionalParameter =>
      ((results.filter fun (c, _) => c.label.isNamed).map (·.2)).flatten
    | _ => []

variable (source : Source) (name : List Char)

/-- Whether a node spans the name. -/
def spells (t : Tree) : Except Utf8.Fault Bool := return (← source.textOf t) == name

/-- Whether a pattern binds the name.  An absent pattern binds nothing. -/
def binds : Option Tree → Except Utf8.Fault Bool
  | none => return false
  | some pattern => (bindings pattern).anyM (spells source name)

/-- Whether one of the declarators below a declaration binds the name. -/
def declaratorBinds (declaration : Tree) : Except Utf8.Fault Bool :=
  declaration.namedChildren.anyM fun d =>
    if d.kind = .variableDeclarator then binds source name (d.child? .name) else return false

/-- Whether a loop over the members of a value declares its variable with `var`, or with another
word; `none` when it declares no variable. -/
def loopDeclaresVar? (loop : Tree) : Except Utf8.Fault (Option Bool) :=
  match loop.child? .kind with
  | none => return none
  | some word => return some ((← source.textOf word) == "var".toList)

/-- Whether a `var` below a node binds the name, functions below the node apart. -/
def declaresVar : Tree → Except Utf8.Fault Bool :=
  Tree.fold fun _ results =>
    results.anyM fun (c, below) => do
      if !c.label.isNamed || c.kind.isFunction then return false
      if c.kind = .variableDeclaration then
        if ← declaratorBinds source name c then return true
      if c.kind = .forInStatement then
        if (← loopDeclaresVar? source c) = some true then
          if ← binds source name (c.child? .left) then return true
      below

/-- Whether a function binds the name: as its own name, as a parameter or as a `var` of its body.
A declared function's own name belongs to the scope around it. -/
def functionDeclares (t : Tree) : Except Utf8.Fault Bool := do
  if t.kind = .functionExpression || t.kind = .function || t.kind = .generatorFunction then
    if let some own := t.child? .name then
      if ← spells source name own then return true
  if ← binds source name (t.child? .parameters) then return true
  if ← binds source name (t.child? .parameter) then return true
  match t.child? .body with
  | none => return false
  | some body => declaresVar source name body

/-- Whether a block declares the name among its own statements. -/
def blockDeclares (t : Tree) : Except Utf8.Fault Bool :=
  t.namedChildren.anyM fun c =>
    match c.kind with
    | .lexicalDeclaration => declaratorBinds source name c
    | .classDeclaration | .functionDeclaration | .generatorFunctionDeclaration =>
      match c.child? .name with
      | none => return false
      | some own => spells source name own
    | _ => return false

/-- Whether a node opens a scope that declares the name. -/
def declares (t : Tree) : Except Utf8.Fault Bool :=
  if t.kind.isFunction then functionDeclares source name t
  else if t.kind.isBlock then blockDeclares source name t
  else match t.kind with
    | .forStatement =>
      match t.child? .initializer with
      | none => return false
      | some start =>
        if start.kind = .lexicalDeclaration then declaratorBinds source name start
        else return false
    | .forInStatement => do
      if (← loopDeclaresVar? source t) = some false then binds source name (t.child? .left)
      else return false
    | .catchClause => binds source name (t.child? .parameter)
    | _ => return false

/-! ## References -/

/-- The spans of the identifiers in and below a node that refer to a variable declared around it. -/
def referencesBelow : Tree → Except Utf8.Fault (List Span) :=
  Tree.fold fun t results => do
    if t.kind.isName then
      if ← spells source name t then return [t.span]
    if ← declares source name t then return []
    return (← results.reverse.mapM (·.2)).flatten

/-- The spans of the identifiers in a scope that refer to the variable it declares. -/
def references (scope : Tree) : Except Utf8.Fault (List Span) :=
  return (← scope.children.reverse.mapM (referencesBelow source name)).flatten

/-! ## Declarations -/

/-- A node that declares a variable, with the nodes above it, the nearest first. -/
structure Declaration where
  site : Tree
  ancestors : List Tree
  deriving Repr

/-- The scope of a declarator, which is unknown when no node around it can be one. -/
def declaratorScope : List Tree → Option Tree
  | [] => none
  | declaration :: above =>
    if declaration.kind = .variableDeclaration then above.find? (·.kind.isVarScope)
    else match above with
      | [] => none
      | parent :: _ =>
        if parent.kind = .forStatement then some parent else above.find? (·.kind.isBlock)

/-- The scope a declaration binds in.  The head of a loop over the members of a value binds in the
loop itself unless it says `var`. -/
def Declaration.scope (d : Declaration) : Except Utf8.Fault (Option Tree) := do
  if d.site.kind = .forInStatement then
    if (← loopDeclaresVar? source d.site) = some true then
      return d.ancestors.find? (·.kind.isVarScope)
    else return some d.site
  else return declaratorScope d.ancestors

/-- The declarators and loop heads that bind the name, in and below a node whose ancestors are
given. -/
def declarations : Tree → List Tree → Except Utf8.Fault (List Declaration) :=
  Tree.fold fun t results ancestors => do
    let declared ←
      if t.kind = .variableDeclarator then binds source name (t.child? .name)
      else if t.kind = .forInStatement && (t.child? .kind).isSome then
        binds source name (t.child? .left)
      else pure false
    let own := if declared then [⟨t, ancestors⟩] else []
    return own ++ (← results.reverse.mapM fun (_, below) => below (t :: ancestors)).flatten

/-- The spans of all identifiers that refer to a declaration of the name. -/
def declaredReferences (root : Tree) : Except Utf8.Fault (List Span) := do
  let found ← declarations source name root []
  let spans ← found.mapM fun d => do
    match ← d.scope source with
    | none => return []
    | some scope => references source name scope
  return spans.flatten

/-- The texts of all names in a tree. -/
def usedNames (root : Tree) : Except Utf8.Fault (List (List Char)) :=
  Tree.fold (fun t results => do
    let own ← if t.kind.isName then pure [← source.textOf t] else pure []
    return own ++ (← results.reverse.mapM (·.2)).flatten) root

end Courier.Script
