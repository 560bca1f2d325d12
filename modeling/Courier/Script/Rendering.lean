import Courier.Script.FreshName
import Courier.Script.Vocabulary
import Courier.Text.Lines

/-!
# Rendering a syntax tree

The text of a script is printed from its syntax tree, with some nodes replaced.  Calls of `test`,
`expect` and the variable methods of `bru` get a new callee.  In a test script the properties of
`res` are replaced too, a look-up in the headers of the response becomes a call, and the variables
named `responseBody`, a name the testing sandbox reserves, get a name of their own.  All other text
is copied from the script, comments and layout included.

A node is rendered by one step from the renderings of its children, so every rule below is stated
for one node.  A use of `bru` or `res` without replacement stays as it is and gives a notice.
-/

namespace Courier.Script

open Text (Utf8.Fault)

/-- A use that has no replacement. -/
inductive Notice where
  | method (name : List Char)
  | chain (callee : List Char)
  | property (name : List Char)
  deriving DecidableEq, Repr

def Notice.message : Notice → String
  | .method name => s!"Unmappable Bruno API: bru.{String.ofList name}"
  | .chain callee => s!"Unmappable Bruno API: {String.ofList callee}"
  | .property name => s!"Unmappable Bruno response property: res.{String.ofList name}"

/-- Why a tree cannot be rendered: a span cuts through a character, or a node lacks the child
that a rule asks for. -/
inductive Defect where
  | encoding (fault : Utf8.Fault)
  | absentChild
  deriving DecidableEq, Repr

def Defect.message : Defect → String
  | .encoding fault => fault.message
  | .absentChild => "'NoneType' object has no attribute 'start_byte'"

/-- The printed text of a node and the notices it gave rise to, in order. -/
structure Rendering where
  text : List Char
  notices : List Notice
  deriving DecidableEq, Repr

/-- What every rule knows of the script. -/
structure Renderer where
  source : Source
  role : Role
  renamed : List Span
  newName : List Char

/-- The variable name that the testing sandbox reserves. -/
def reservedName : List Char := "responseBody".toList

/-- The name that replaces `reservedName` when the script does not use it. -/
def replacementName : List Char := "parsedResponseBody".toList

namespace Renderer

variable (r : Renderer)

/-- Reads text of the script. -/
def read (result : Except Utf8.Fault (List Char)) : Except Defect (List Char) :=
  result.mapError .encoding

def textOf (t : Tree) : Except Defect (List Char) := read (r.source.textOf t)

/-- Whether a node is the identifier `name`. -/
def isIdentifier (name : String) : Option Tree → Except Defect Bool
  | none => return false
  | some t => do
    if t.kind = .identifier then return (← r.textOf t) == name.toList else return false

/-- The innermost object of a chain of member accesses. -/
def chainRoot : Tree → Option Tree :=
  Tree.fold fun t results =>
    if t.kind = .memberExpression then (pick? .object results).join else some t

/-- Whether a node is the access `objectName.propertyName`.  It has to have a property when its
object fits. -/
def isAccess (objectName propertyName : String) : Option Tree → Except Defect Bool
  | none => return false
  | some t => do
    if t.kind ≠ .memberExpression then return false
    if !(← r.isIdentifier objectName (t.child? .object)) then return false
    match t.child? .property with
    | none => throw .absentChild
    | some property => return (← r.textOf property) == propertyName.toList

/-! ## Copying -/

/-- Continues a copy at `cursor`: the text up to each child and the child's rendering in turn, then
the text up to `stop`.  A child that spans `override` is replaced. -/
def copyFrom (override : Option (Span × List Char)) (stop : Nat) :
    Nat → List (Tree × Except Defect Rendering) → Except Defect Rendering
  | cursor, [] => do
    let tail ← read (r.source.slice cursor stop)
    return ⟨tail, []⟩
  | cursor, (c, rendered) :: rest => do
    let gap ← read (r.source.slice cursor c.span.start)
    let piece ← match override with
      | some (span, text) => if c.span = span then pure ⟨text, []⟩ else rendered
      | none => rendered
    let tail ← copyFrom override stop c.span.stop rest
    return ⟨gap ++ piece.text ++ tail.text, piece.notices ++ tail.notices⟩

/-- Prints a node from its children. -/
def copy (override : Option (Span × List Char)) (t : Tree)
    (results : List (Tree × Except Defect Rendering)) : Except Defect Rendering :=
  match results with
  | [] => return ⟨← r.textOf t, []⟩
  | _ => r.copyFrom override t.span.stop t.span.start results

/-- Puts a notice before those of a rendering. -/
def noting (notice : Notice) (rendered : Except Defect Rendering) : Except Defect Rendering := do
  let result ← rendered
  return { result with notices := notice :: result.notices }

/-! ## Rules -/

/-- A call of a known function gets the replacement as its callee. -/
def renderCall (t : Tree) (results : List (Tree × Except Defect Rendering)) :
    Except Defect Rendering := do
  match t.child? .function with
  | none => r.copy none t results
  | some callee =>
    if callee.kind = .identifier then
      match bareCalls.lookup (String.ofList (← r.textOf callee)) with
      | some target => r.copy (some (callee.span, target.toList)) t results
      | none => r.copy none t results
    else if callee.kind ≠ .memberExpression then r.copy none t results
    else if ← r.isIdentifier "bru" (callee.child? .object) then
      match callee.child? .property with
      | none => r.copy none t results
      | some property =>
        if property.kind ≠ .propertyIdentifier then r.copy none t results
        else
          let method ← r.textOf property
          match variableCalls.lookup (String.ofList method) with
          | some target => r.copy (some (callee.span, target.toList)) t results
          | none => noting (.method method) (r.copy none t results)
    else if ← r.isIdentifier "bru" (chainRoot callee) then
      noting (.chain (← r.textOf callee)) (r.copy none t results)
    else r.copy none t results

/-- In a test script a known property of `res` is replaced.  A replacement that is a call is
written without its parentheses where the access is called itself. -/
def renderMember (isCallee : Bool) (t : Tree) (results : List (Tree × Except Defect Rendering)) :
    Except Defect Rendering := do
  if r.role ≠ .test then r.copy none t results
  else if !(← r.isIdentifier "res" (t.child? .object)) then r.copy none t results
  else match t.child? .property with
    | none => r.copy none t results
    | some property =>
      if property.kind ≠ .propertyIdentifier then r.copy none t results
      else
        let name ← r.textOf property
        match responseAccesses.lookup (String.ofList name) with
        | none => noting (.property name) (r.copy none t results)
        | some access =>
          return ⟨(if isCallee then access.path else access.text).toList, []⟩

/-- In a test script a look-up in the headers of the response becomes a call. -/
def renderSubscript (t : Tree) (results : List (Tree × Except Defect Rendering)) :
    Except Defect Rendering := do
  if r.role ≠ .test then r.copy none t results
  else match t.child? .object, pick? .index results with
    | some object, some index =>
      if object.kind ≠ .memberExpression then r.copy none t results
      else
        let ofResponse ← r.isAccess "res" "headers" (some object)
        match object.child? .property with
        | none => throw .absentChild
        | some property =>
          let isHeaders := (← r.textOf property) == "headers".toList
          let ofSandbox ←
            if isHeaders then r.isAccess "pm" "response" (object.child? .object) else pure false
          if ofResponse || ofSandbox then
            let key ← index
            return ⟨"pm.response.headers.get(".toList ++ key.text ++ [')'], key.notices⟩
          else r.copy none t results
    | _, _ => r.copy none t results

/-- A renamed identifier is written under its new name, and a shorthand property as a pair. -/
def renderName (t : Tree) (results : List (Tree × Except Defect Rendering)) :
    Except Defect Rendering := do
  if t.span ∈ r.renamed then
    if t.kind = .identifier then return ⟨r.newName, []⟩
    else return ⟨(← r.textOf t) ++ ": ".toList ++ r.newName, []⟩
  else r.copy none t results

/-- Renders one node.  `callee` is the span of the callee of the call around it, if it stands
directly in one. -/
def renderNode (callee : Option Span) (t : Tree)
    (results : List (Tree × Except Defect Rendering)) : Except Defect Rendering :=
  match t.kind with
  | .callExpression => r.renderCall t results
  | .memberExpression => r.renderMember (callee == some t.span) t results
  | .subscriptExpression => r.renderSubscript t results
  | .identifier | .shorthandProperty | .shorthandPropertyPattern => r.renderName t results
  | _ => r.copy none t results

/-- The span of the callee when a node is a call. -/
def calleeSpan (t : Tree) : Option Span :=
  if t.kind = .callExpression then (t.child? .function).map Tree.span else none

/-- Renders a tree below a node whose callee has the given span. -/
def render : Tree → Option Span → Except Defect Rendering :=
  Tree.fold fun t results callee =>
    r.renderNode callee t (results.map fun (c, below) => (c, below (calleeSpan t)))

end Renderer

/-! ## Whole scripts -/

/-- A rendered script: its text, the notices in document order, and the new name of the renamed
variables when there are any. -/
structure Rendered where
  text : List Char
  notices : List Notice
  newName : Option (List Char)
  deriving DecidableEq, Repr

/-- The identifiers to rename in a script, and their new name.  Only a test script has any. -/
def planRename (source : Source) (role : Role) (root : Tree) :
    Except Defect (Option (List Span × List Char)) := do
  if role ≠ .test then return none
  let spans ← (declaredReferences source reservedName root).mapError .encoding
  if spans.isEmpty then return none
  let newName ← (freeName source replacementName root).mapError .encoding
  return some (spans, newName)

/-- Renders the script with the given syntax tree. -/
def renderScript (source : Source) (role : Role) (root : Tree) : Except Defect Rendered := do
  let plan ← planRename source role root
  let (renamed, newName) := plan.getD ([], [])
  let head ← Renderer.read (source.slice 0 root.span.start)
  let body ← Renderer.render ⟨source, role, renamed, newName⟩ root none
  let tail ← Renderer.read (source.slice root.span.stop source.length)
  return ⟨head ++ body.text ++ tail, body.notices, plan.map (·.2)⟩

/-- The warning about renamed variables. -/
def renameWarning (newName : List Char) : String :=
  s!"Variable \"{String.ofList reservedName}\" renamed to \"{String.ofList newName}\"" ++
    " to avoid Postman sandbox conflict"

/-- The lines and warnings of a rendered script.  The marker line is put first when a use has no
replacement. -/
def Rendered.conversion (w : Rendered) : Conversion :=
  let lines := Text.lineStrings w.text
  let renames := (w.newName.map renameWarning).toList
  if w.notices.isEmpty then ⟨lines, renames, none⟩
  else ⟨partialMarker :: lines, w.notices.map Notice.message ++ partialWarning :: renames, none⟩

/-- The warning of a conversion that was given up. -/
def fallbackWarning : String := "AST conversion failed - falling back to line based converter"

/-- The script as it was, with the reason why it could not be converted. -/
def abandoned (script : List Char) (reason : String) : Conversion :=
  ⟨Text.lineStrings script, [fallbackWarning], some reason⟩

/-- Converts a script through a syntax tree, or keeps it with the reason why there is none. -/
def convertTree (script : List Char) (role : Role) (parsed : Except String Tree) : Conversion :=
  match parsed with
  | .error reason => abandoned script reason
  | .ok root =>
    match renderScript (Text.Utf8.encode script) role root with
    | .error defect => abandoned script defect.message
    | .ok result => result.conversion

/-! ## Reporting syntax errors -/

/-- Whether a node is a syntax error by its kind, or one that the text lacks. -/
def Tree.isFault (t : Tree) : Bool := t.kind = .error || t.label.isMissing

theorem Tree.isFault_iff {t : Tree} :
    t.isFault = true ↔ t.kind = .error ∨ t.label.isMissing = true := by
  simp [Tree.isFault]

/-- Whether the label of a node says that a fault is to be found there or below. -/
def Tree.isSuspect (t : Tree) : Bool := t.label.hasError || t.label.isMissing

/-- Puts trees on a stack one after the other.  The last of them comes to stand on top. -/
def pushAll (stack ts : List Tree) : List Tree := ts.foldl (fun stack t => t :: stack) stack

theorem pushAll_reverse (stack ts : List Tree) : pushAll stack ts.reverse = ts ++ stack := by
  rw [pushAll, List.foldl_reverse]
  induction ts with
  | nil => rfl
  | cons t ts ih => rw [List.foldr_cons, ih, List.cons_append]

/-- The number of nodes of trees. -/
def nodeCount (ts : List Tree) : Nat := (ts.flatMap Tree.preorder).length

theorem nodeCount_cons (t : Tree) (ts : List Tree) :
    nodeCount (t :: ts) = 1 + nodeCount t.children + nodeCount ts := by
  simp only [nodeCount, List.flatMap_cons, List.length_append, Tree.preorder_eq t,
    List.length_cons]
  omega

theorem nodeCount_append (ts us : List Tree) :
    nodeCount (ts ++ us) = nodeCount ts + nodeCount us := by
  simp [nodeCount]

theorem nodeCount_filter_le (p : Tree → Bool) (ts : List Tree) :
    nodeCount (ts.filter p) ≤ nodeCount ts := by
  induction ts with
  | nil => exact Nat.le_refl _
  | cons t ts ih =>
    rw [List.filter_cons]
    split
    · rw [nodeCount_cons, nodeCount_cons]
      omega
    · rw [nodeCount_cons]
      omega

/-- Looks for a fault in the trees of a stack.  The tree on top is taken off; if it is no fault
itself, those of its children that may hold one are put on in reverse, so that the first of them is
looked at next. -/
def firstFaultOn (stack : List Tree) : Option Label :=
  match stack with
  | [] => none
  | t :: rest =>
    if t.isFault then some t.label
    else firstFaultOn (pushAll rest (t.children.filter Tree.isSuspect).reverse)
termination_by nodeCount stack
decreasing_by
  have hle := nodeCount_filter_le Tree.isSuspect t.children
  rw [pushAll_reverse, nodeCount_append, nodeCount_cons]
  omega

/-- Where a node begins, counted from one. -/
def Label.place (label : Label) : String :=
  s!" at line {label.row + 1}, column {label.column + 1}"

/-- What is said of a fault. -/
def Label.faultText (label : Label) : String :=
  (if label.isMissing then "missing token" else "syntax error") ++ label.place

/-- Says what the first syntax error of a tree is and where. -/
def describeSyntaxError (root : Tree) : String :=
  match firstFaultOn [root] with
  | none => "syntax error"
  | some label => label.faultText

end Courier.Script
