import Courier.Script.Syntax.Ending

/-!
# Reading by a grammar

A reader takes a piece of syntax off a script and gives its tree.  What one reader needs of another
that needs it in turn, an expression inside a block inside an expression, it asks for as a goal; the
grammar it is given answers.  `Grammar` ties no knot: the depth to which goals are nested is bounded
where the grammar is put together.

There are two dialects.  The plain one has markup and reserves its keywords; the typed one has
types, and reads a keyword as a name where the keyword cannot stand.
-/

namespace Courier.Script.Syntax

/-- A reader of the text at a cursor, which is moved behind what was read. -/
abbrev Step := StateT Cursor Option

/-- The pieces of syntax that hold each other. -/
inductive Goal where
  | statement
  | block
  | expression
  | operand
  | chain
  | constructed
  | pattern
  | markup
  | type
  deriving DecidableEq, Repr

/-- A dialect with a way to reach its goals. -/
structure Grammar where
  typed : Bool
  reach : Goal → Step Tree

/-- A reader that may ask for goals. -/
abbrev Reader := ReaderT Grammar Step

def goal (g : Goal) : Reader Tree := fun grammar => grammar.reach g

/-- Reads in the typed dialect only. -/
def inTyped : Reader Unit := do
  if !(← read).typed then failure

/-- Reads in the plain dialect only. -/
def inPlain : Reader Unit := do
  if (← read).typed then failure

/-! ## Tokens -/

/-- The text from the next token on. -/
def ahead : Reader (List Char) := return (← get).skipGap.rest

/-- The position of the next token. -/
def position : Reader Nat := return (← get).skipGap.offset

/-- Takes a lexeme off the text at the cursor. -/
def lexemeHere (l : Lexer) : Reader Span := do
  let c ← get
  match l c.rest with
  | none => failure
  | some n =>
    set (c.advance n)
    return ⟨c.offset, (c.advance n).offset⟩

/-- Takes the next token, which has to be in the class of a lexer. -/
def lexeme (l : Lexer) : Reader Span := do
  modify Cursor.skipGap
  lexemeHere l

/-- A node without children. -/
def leaf (kind : Kind) (l : Lexer) : Reader Tree :=
  return .node ⟨kind, ← lexeme l, none, true, false, false, 0, 0⟩ []

/-- The next sign, if a sign comes next. -/
def nextSign : Reader (Option String) := return signAt? (← ahead)

/-- Takes the next token, which has to be a sign. -/
def sign (s : String) : Reader Unit := do
  if (← nextSign) = some s then discard (lexeme (literally s)) else failure

/-- Takes one of some signs. -/
def signOf (choices : List String) : Reader Unit := do
  match ← nextSign with
  | none => failure
  | some s => if choices.contains s then discard (lexeme (literally s)) else failure

/-- Takes a sign off a longer one where the longer one cannot stand. -/
def mark (s : String) : Reader Unit := discard (lexeme (literally s))

/-- The next word, empty if no word comes next. -/
def nextWord : Reader String := do
  let cs ← ahead
  return String.ofList (cs.take ((wordLength? cs).getD 0))

/-- A word as a node that stands for itself. -/
def keyword (w : String) : Reader Tree := do
  if (← nextWord) = w then
    return .node ⟨.other w, ← lexeme wordLength?, none, false, false, false, 0, 0⟩ []
  else failure

/-- Takes a word. -/
def word (w : String) : Reader Unit := discard (keyword w)

/-- Takes one of some words. -/
def wordOf (choices : List String) : Reader Unit := do
  let w ← nextWord
  if choices.contains w then word w else failure

/-- The words the plain dialect never reads as names. -/
def reservedWords : List String := [
  "break", "case", "catch", "class", "const", "continue", "debugger", "default", "delete", "do",
  "else", "export", "extends", "false", "finally", "for", "function", "if", "import", "in",
  "instanceof", "new", "null", "return", "super", "switch", "this", "throw", "true", "try",
  "typeof", "var", "void", "while", "with"]

/-- A name. -/
def name (kind : Kind) : Reader Tree := do
  let w ← nextWord
  if !(← read).typed && reservedWords.contains w then failure
  leaf kind wordLength?

def identifier : Reader Tree := name .identifier

/-! ## Combinations -/

/-- Whether a reader would succeed.  Nothing is taken. -/
def succeeds {α : Type} (r : Reader α) : Reader Bool := do
  let c ← get
  let result ← optional r
  set c
  return result.isSome

/-- Succeeds where a reader would succeed.  Nothing is taken. -/
def before {α : Type} (r : Reader α) : Reader Unit := do
  if !(← succeeds r) then failure

/-- Fails where a reader would succeed. -/
def without {α : Type} (r : Reader α) : Reader Unit := do
  if ← succeeds r then failure

/-- As many readings in a row as there are, `fuel` of them at most. -/
def manyUpTo {α : Type} (r : Reader α) : Nat → Reader (List α)
  | 0 => return []
  | fuel + 1 => do
    match ← optional r with
    | none => return []
    | some a => return a :: (← manyUpTo r fuel)

/-- As many readings in a row as there are.  Each is taken to need a character. -/
def many {α : Type} (r : Reader α) : Reader (List α) := do
  manyUpTo r (← get).rest.length

/-- A reading or none. -/
def maybe (r : Reader Tree) : Reader (List Tree) := return (← optional r).toList

/-- Readings or none. -/
def maybeAll (r : Reader (List Tree)) : Reader (List Tree) := return (← optional r).getD []

/-- A token that may be missing. -/
def optionally (r : Reader Unit) : Reader Unit := discard (optional r)

/-- A node from a given start to the cursor. -/
def nodeFrom (start : Nat) (kind : Kind) (children : List Tree) : Reader Tree := do
  let stop := (← get).offset
  return .node ⟨kind, ⟨start, max start stop⟩, none, true, false, false, 0, 0⟩ children

/-- A node around what a reader takes. -/
def node (kind : Kind) (children : Reader (List Tree)) : Reader Tree := do
  let start ← position
  nodeFrom start kind (← children)

/-- A reading that fills a field. -/
def filling (field : Field) (r : Reader Tree) : Reader Tree := return (← r).filling field

/-- A reading between two signs. -/
def between {α : Type} (opening closing : String) (r : Reader α) : Reader α := do
  sign opening
  let a ← r
  mark closing
  return a

/-- Readings with commas between them, at least one. -/
def listed (item : Reader Tree) : Reader (List Tree) := do
  let first ← item
  return first :: (← many do sign ","; item)

/-- Readings with commas between them, where any may be left out. -/
def listedWithHoles (item : Reader Tree) : Reader (List Tree) := do
  let first ← optional item
  let rest ← many do sign ","; optional item
  return (first :: rest).filterMap id

/-- Readings with commas between them and maybe one more comma. -/
def listedLoosely (item : Reader Tree) : Reader (List Tree) := do
  let items ← maybeAll (listed item)
  if !items.isEmpty then optionally (sign ",")
  return items

/-- Whether the statement may end at the cursor without a semicolon. -/
def mayEnd (afterOperand : Bool) : Reader Bool :=
  return endsHere (← read).typed afterOperand (← get).rest

/-- Takes the end of a statement. -/
def semicolon (afterOperand : Bool) : Reader Unit := do
  if !(← mayEnd afterOperand) then sign ";"

/-- Whether a word comes next behind which a statement may end, so that the word is a name. -/
def endsLine (w : String) : Reader Bool := succeeds do
  word w
  if !(← mayEnd true) then failure

end Courier.Script.Syntax
