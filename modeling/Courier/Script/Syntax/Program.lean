import Courier.Script.Syntax.Markup
import Courier.Script.Syntax.Statement
import Courier.Script.Syntax.TypeNotation

/-!
# Modules and programs

What a script takes from other modules and gives to them, the declarations of the typed dialect, and
the choice of a statement by its first word.
-/

namespace Courier.Script.Syntax

/-! ## Taking from other modules -/

def stringToken : Reader Tree := leaf (.other "string") stringLength?

/-- A name under which a module exports something. -/
def exportedName : Reader Tree := stringToken <|> identifier <|> keyword "default"

/-- One of the things taken from or given to another module, and its name here or there. -/
def specifier (kind : String) : Reader Tree := node (.other kind) do
  let renamed (own : Reader Tree) : Reader (List Tree) := do
    let own ← filling .name own
    word "as"
    return [own, ← filling (.other "alias") exportedName]
  let typed : Reader (List Tree) := do
    inTyped
    wordOf ["type", "typeof"]
    renamed exportedName <|> (do return [← filling .name exportedName])
  typed <|> renamed exportedName <|> (do return [← filling .name exportedName])

def namespaceImport : Reader Tree := node (.other "namespace_import") do
  sign "*"
  word "as"
  return [← identifier]

def namedImports : Reader Tree := node (.other "named_imports") <|
  between "\x7b" "\x7d" (listedLoosely (specifier "import_specifier"))

/-- What is taken from another module. -/
def importClause : Reader Tree := node (.other "import_clause") do
  let several := namespaceImport <|> namedImports
  let single : Reader (List Tree) := do
    let own ← identifier
    return own :: (← maybe do sign ","; several)
  (do return [← several]) <|> single

/-- The module that something is taken from. -/
def fromClause : Reader Tree := do
  word "from"
  filling (.other "source") stringToken

/-- What is said about a module that is taken from. -/
def importAttribute : Reader Tree := node (.other "import_attribute") do
  word "with"
  return [← objectLiteral]

def importStatement : Reader Tree := statementOf "import_statement" do
  word "import"
  let whole : Reader (List Tree) := do return [← filling (.other "source") stringToken]
  let parts : Reader (List Tree) := do
    let clause ← importClause
    return [clause, ← fromClause]
  let required : Reader (List Tree) := do
    inTyped
    let own ← identifier
    sign "="
    word "require"
    return [own, ← between "(" ")" stringToken]
  let taken ← whole <|> (do inTyped; wordOf ["type", "typeof"]; parts) <|> parts <|> required
  let attributes ← maybe importAttribute
  semicolon false
  return taken ++ attributes

/-- Another name for something in a namespace. -/
def importAlias : Reader Tree := statementOf "import_alias" do
  inTyped
  word "import"
  let own ← identifier
  sign "="
  let subject ← goal .chain
  semicolon true
  return [own, subject]

/-! ## Declarations of the typed dialect -/

def typeIdentifier : Reader Tree := leaf (.other "type_identifier") wordLength?

def interfaceDeclaration : Reader Tree := statementOf "interface_declaration" do
  inTyped
  word "interface"
  let own ← filling .name typeIdentifier
  let types ← maybe typeParameters
  let above ← maybeAll do word "extends"; listed (goal .type)
  return own :: types ++ above ++ [← filling .body objectType]

def typeAlias : Reader Tree := statementOf "type_alias_declaration" do
  inTyped
  word "type"
  let own ← filling .name typeIdentifier
  let types ← maybe typeParameters
  sign "="
  let value ← filling .value (goal .type)
  semicolon false
  return own :: types ++ [value]

def enumMember : Reader Tree := node (.other "enum_assignment") do
  let own ← filling .name propertyName
  return own :: (← maybe (filling .value defaultValue))

def enumDeclaration : Reader Tree := statementOf "enum_declaration" do
  inTyped
  optionally (word "const")
  word "enum"
  let own ← filling .name identifier
  return own :: (← between "\x7b" "\x7d" (listedLoosely enumMember))

/-- A namespace, whose name may be a chain or a string. -/
def namespaceDeclaration : Reader Tree := statementOf "internal_module" do
  inTyped
  wordOf ["namespace", "module"]
  let chained := do
    let first ← identifier
    return first :: (← many do sign "."; property)
  let own ← (do return [← stringToken]) <|> chained
  return own ++ (← maybe block)

/-- Declarations without a keyword that the plain dialect has. -/
def typedDeclaration : Reader Tree :=
  interfaceDeclaration <|> typeAlias <|> enumDeclaration <|> namespaceDeclaration

/-! ## Giving to other modules -/

/-- A declaration that can be given to other modules. -/
def declaration : Reader Tree := do
  match ← nextWord with
  | "function" | "async" => functionDeclaration
  | "class" => classDeclaration
  | "var" => variableDeclaration
  | "let" => lexicalDeclaration
  | "const" => enumDeclaration <|> lexicalDeclaration
  | "abstract" => inTyped *> classDeclaration
  | "declare" => ambient
  | "import" => importAlias
  | "" => classDeclaration
  | _ => typedDeclaration
where
  /-- The declaration of something that is defined elsewhere. -/
  ambient : Reader Tree := statementOf "ambient_declaration" do
    inTyped
    word "declare"
    let everywhere : Reader Tree := do
      word "global"
      block
    return [← functionDeclaration <|> variableDeclaration <|> enumDeclaration <|>
      lexicalDeclaration <|> classDeclaration <|> typedDeclaration <|> everywhere]

/-- Names given to other modules. -/
def exportClause : Reader Tree := node (.other "export_clause") <|
  between "\x7b" "\x7d" (listedLoosely (specifier "export_specifier"))

def exportStatement : Reader Tree := statementOf "export_statement" do
  let decorators ← many decorator
  word "export"
  let everything : Reader (List Tree) := do
    sign "*"
    let renamed ← maybe do word "as"; exportedName
    let source ← fromClause
    semicolon false
    return renamed ++ [source]
  let names : Reader (List Tree) := do
    if (← read).typed then optionally (word "type")
    let clause ← exportClause
    let source ← maybe fromClause
    semicolon false
    return clause :: source
  let given : Reader (List Tree) := do
    return [← filling (.other "declaration") declaration]
  let byDefault : Reader (List Tree) := do
    word "default"
    let valued : Reader (List Tree) := do
      let value ← filling .value (goal .expression)
      semicolon true
      return [value]
    given <|> valued
  let assigned : Reader (List Tree) := do
    inTyped
    sign "="
    let value ← goal .expression
    semicolon true
    return [value]
  let globally : Reader (List Tree) := do
    inTyped
    word "as"
    word "namespace"
    let own ← identifier
    semicolon false
    return [own]
  let exported ← everything <|> names <|> byDefault <|> assigned <|> globally <|> given
  return decorators ++ exported

/-! ## Statements by their first word -/

/-- Whether a brace at the start of a statement is followed by a property with a value. -/
def beginsPair : Reader Bool := succeeds do
  sign "\x7b"
  discard propertyName
  sign ":"

/-- A statement that begins with a word which may be a name as well. -/
def softStatement (w : String) (statement : Reader Tree) : Reader Tree := do
  let other := labeledStatement <|> expressionStatement
  if ← endsLine w then other else statement <|> other

/-- Whether a function or class with a name comes next. -/
def beginsNamed : Reader Bool := succeeds do
  optionally (word "async")
  wordOf ["function", "class"]
  optionally (sign "*")
  discard (identifier <|> className)

/-- A function or class with a name is declared; one without a name is a value. -/
def namedOr (declaration : Reader Tree) : Reader Tree := do
  if ← beginsNamed then declaration else labeledStatement <|> expressionStatement

def statement : Reader Tree := do
  modify fun c => c.skipMarkedLines c.rest.length
  match ← ahead with
  | ';' :: _ => emptyStatement
  | '\x7b' :: _ =>
    if ← beginsPair then expressionStatement <|> goal .block
    else blockOr expressionStatement
  | '@' :: _ => classDeclaration <|> exportStatement <|> expressionStatement
  | _ =>
    match ← nextWord with
    | "" => expressionStatement
    | "if" => ifStatement
    | "switch" => switchStatement
    | "for" => memberLoop <|> countedLoop
    | "while" => whileStatement
    | "do" => doStatement
    | "try" => tryStatement
    | "with" => withStatement
    | "break" => jumpStatement "break"
    | "continue" => jumpStatement "continue"
    | "return" => valueStatement "return" false
    | "throw" => valueStatement "throw" true
    | "debugger" => debuggerStatement
    | "var" => variableDeclaration
    | "const" => enumDeclaration <|> lexicalDeclaration
    | "let" => softStatement "let" lexicalDeclaration
    | "function" => namedOr functionDeclaration
    | "class" => namedOr classDeclaration
    | "async" =>
      if ← endsLine "async" then labeledStatement <|> expressionStatement
      else namedOr functionDeclaration
    | "import" => importStatement <|> importAlias <|> expressionStatement
    | "export" => exportStatement
    | w =>
      if ["interface", "type", "enum", "namespace", "module", "declare", "abstract"].contains w then
        softStatement w (inTyped *> declaration)
      else labeledStatement <|> expressionStatement

/-- A script: statements behind a first line that may name what is to run it. -/
def program : Reader Tree := do
  let first ← optional (lexeme (literally "#!"))
  if first.isSome then discard (lexemeHere fun cs => some (lineLength cs))
  let statements ← many (goal .statement)
  modify fun c => (c.skipMarkedLines c.rest.length).skipGap
  if !(← get).rest.isEmpty then failure
  nodeFrom 0 .program statements

/-! ## Putting the grammar together -/

/-- What answers a goal. -/
def production : Goal → Reader Tree
  | .statement => statement
  | .block => block
  | .expression => expression
  | .operand => operand
  | .chain => chain
  | .constructed => constructed
  | .pattern => pattern
  | .markup => markup
  | .type => type

/-- The grammar of a dialect, for goals nested no deeper than `depth`. -/
def grammar (typed : Bool) : Nat → Grammar
  | 0 => ⟨typed, fun _ => failure⟩
  | depth + 1 => ⟨typed, fun g => production g (grammar typed depth)⟩

/-- A bound for the depth to which goals are nested in a script.  Every character opens a few of
them at most. -/
def depthBound (script : List Char) : Nat := 16 * (script.length + 1)

/-- Parses a script in one dialect. -/
def parseIn? (typed : Bool) (script : List Char) : Option Tree :=
  (program (grammar typed (depthBound script)) ⟨script, 0⟩).map (·.1)

end Courier.Script.Syntax
