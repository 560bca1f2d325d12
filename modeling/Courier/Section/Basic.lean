import Courier.Text.Blank
import Courier.Text.Lines

/-!
# Sections of a document

A document is a sequence of named sections.  A line that ends in an opening brace opens a section
of text; the section ends with the line at which the braces balance.  A line that ends in an opening
bracket opens a list, which ends with a line that holds the closing bracket alone.  Between
sections, blank lines, comments and all other lines are skipped.  A section that is still open at
the end of the document ends there.

`scanLines` is a recursion over the lines with the open section as its state.
-/

namespace Courier

open Text (trim trimEnd splitLines)

/-- A line of text. -/
abbrev Line := List Char

/-- A named section with its lines as they stand in the document. -/
structure Section where
  name : String
  lines : List Line
  deriving DecidableEq, Repr

namespace Section

/-- The two forms of a section. -/
inductive Form where
  /-- Text in braces, of which `depth` are open. -/
  | text (depth : Nat)
  | list
  deriving DecidableEq, Repr

/-- The name and form of the section that a line opens.  A comment opens none. -/
def opening? (line : Line) : Option (String × Form) :=
  let s := trim line
  if "//".toList.isPrefixOf s then none
  else match s.getLast? with
    | some '\x7b' => some (String.ofList (trim s.dropLast), .text 1)
    | some '[' => some (String.ofList (trim s.dropLast), .list)
    | _ => none

/-- The form of an open section after a line, or `none` when the line closes it. -/
def Form.after? (form : Form) (line : Line) : Option Form :=
  match form with
  | .list => if trim line = [']'] then none else some .list
  | .text depth =>
    let opened := depth + line.count '\x7b'
    let closed := line.count '\x7d'
    if opened ≤ closed then none else some (.text (opened - closed))

/-- A section that is being read, with its lines so far in reverse. -/
structure Open where
  name : String
  form : Form
  lines : List Line
  deriving DecidableEq, Repr

def Open.close (s : Open) : Section := ⟨s.name, s.lines.reverse⟩

/-- Reads lines, given the section they begin in. -/
def scanLines : Option Open → List Line → List Section
  | none, [] => []
  | some s, [] => [s.close]
  | none, line :: rest =>
    match opening? line with
    | some (name, form) => scanLines (some ⟨name, form, []⟩) rest
    | none => scanLines none rest
  | some s, line :: rest =>
    match s.form.after? line with
    | none => s.close :: scanLines none rest
    | some form => scanLines (some { s with form := form, lines := line :: s.lines }) rest

/-- The sections of a document, in order. -/
def scan (text : List Char) : List Section := scanLines none (splitLines text)

/-- The section that is still open at the end of the lines. -/
def unclosed? : Option Open → List Line → Option Section
  | s, [] => s.map Open.close
  | none, line :: rest =>
    match opening? line with
    | some (name, form) => unclosed? (some ⟨name, form, []⟩) rest
    | none => unclosed? none rest
  | some s, line :: rest =>
    match s.form.after? line with
    | none => unclosed? none rest
    | some form => unclosed? (some { s with form := form, lines := line :: s.lines }) rest

/-- What is noted about a section that is still open at the end of a document. -/
def notice? (text : List Char) : Option String :=
  (unclosed? none (splitLines text)).map fun s =>
    s!"Section '{s.name}' is not closed, keeping {s.lines.length} buffered lines."

/-! ## Kinds of sections -/

/-- What a section is for. -/
inductive Kind where
  | method
  | metadata
  | headers
  | queryParams
  | pathParams
  | preScript
  | testScript
  | docs
  | body
  | auth
  | none
  deriving DecidableEq, Repr

def Kind.name : Kind → String
  | .method => "http-method"
  | .metadata => "meta"
  | .headers => "headers"
  | .queryParams => "query-params"
  | .pathParams => "path-params"
  | .preScript => "pre-script"
  | .testScript => "test-script"
  | .docs => "docs"
  | .body => "body"
  | .auth => "auth"
  | .none => "none"

/-- The sections that hold a request's method. -/
def verbs : List String := ["get", "post", "put", "delete", "patch", "head", "options"]

/-- The sections with a fixed name. -/
def fixedKinds : List (String × Kind) := [
  ("meta", .metadata),
  ("headers", .headers),
  ("params:query", .queryParams),
  ("params:path", .pathParams),
  ("script:pre-request", .preScript),
  ("script:post-response", .testScript),
  ("script:test", .testScript),
  ("tests", .testScript),
  ("docs", .docs)]

/-- The kind of the section called `name`. -/
def kindOf (name : String) : Kind :=
  if name ∈ verbs then .method
  else match fixedKinds.lookup name with
    | some kind => kind
    | none =>
      if "body:".toList.isPrefixOf name.toList then .body
      else if "auth:".toList.isPrefixOf name.toList then .auth
      else .none

def kind (s : Section) : Kind := kindOf s.name

end Section

end Courier
