import Courier.Command.Words

/-!
# The arguments of the program

The program has one command, which converts a document or a directory.  The program and the command
have options of their own; those of the program that end it come before the command.
-/

namespace Courier.Command

/-- The options of the program. -/
inductive ProgramKey where
  | help
  | version
  deriving DecidableEq, Repr

/-- The options of the command that converts. -/
inductive ConvertKey where
  | help
  | output
  | name
  | verbose
  | json
  | environments
  | tree
  | upload
  | collectionId
  | uploadKey
  | settings
  | logFile
  deriving DecidableEq, Repr

/-- The name of the command that converts. -/
def convertName : String := "convert"

def programForms : List (OptionForm ProgramKey) := [
  ⟨.help, ["-h", "--help"], false⟩,
  ⟨.version, ["--version"], false⟩]

def convertForms : List (OptionForm ConvertKey) := [
  ⟨.help, ["-h", "--help"], false⟩,
  ⟨.output, ["-o", "--output"], true⟩,
  ⟨.name, ["-n", "--name"], true⟩,
  ⟨.verbose, ["-v", "--verbose"], false⟩,
  ⟨.json, ["--json"], false⟩,
  ⟨.environments, ["--env"], false⟩,
  ⟨.tree, ["--experimental-ast"], false⟩,
  ⟨.upload, ["--upload"], false⟩,
  ⟨.collectionId, ["--collection-id"], true⟩,
  ⟨.uploadKey, ["--postman-api-key"], true⟩,
  ⟨.settings, ["--config"], true⟩,
  ⟨.logFile, ["--log-file"], true⟩]

def convertGrammar : Grammar ConvertKey := ⟨convertForms, (· = .help)⟩

/-- What a conversion is asked for. -/
structure Arguments where
  input : String
  output : Option String
  name : Option String
  verbose : Bool
  json : Bool
  environments : Bool
  tree : Bool
  upload : Bool
  collectionId : Option String
  uploadKey : Option String
  settings : Option String
  logFile : Option String
  deriving DecidableEq, Repr

/-- What the program is asked for. -/
inductive Invocation where
  | help
  | version
  | convertHelp
  | convert (arguments : Arguments)
  | mistake
  deriving DecidableEq, Repr

/-- The arguments that have been read, if nothing is missing or without a place. -/
def Arguments.ofReading? (r : Reading ConvertKey) : Option Arguments :=
  if r.isStray then none
  else r.operand.map fun input => {
    input
    output := r.value? .output
    name := r.value? .name
    verbose := r.has .verbose
    json := r.has .json
    environments := r.has .environments
    tree := r.has .tree
    upload := r.has .upload
    collectionId := r.value? .collectionId
    uploadKey := r.value? .uploadKey
    settings := r.value? .settings
    logFile := r.value? .logFile }

/-- Reads the texts behind the name of the command.  `isStray` says whether there was a word without
a place before it. -/
def readConvert (isStray : Bool) (texts : List String) : Invocation :=
  match convertGrammar.read texts with
  | .error (.at _) => .convertHelp
  | .error .mistake => .mistake
  | .ok r =>
    match Arguments.ofReading? { r with isStray := r.isStray || isStray } with
    | some arguments => .convert arguments
    | none => .mistake

/-- What an option of the program asks for. -/
def ProgramKey.invocation : ProgramKey → Invocation
  | .help => .help
  | .version => .version

/-- What options of the program ask for, of which the first counts. -/
def ProgramKey.invocationOf (cluster : Cluster ProgramKey) : Invocation :=
  match cluster.given with
  | (key, _) :: _ => key.invocation
  | [] => .mistake

/-- Reads texts with the words they are up to the name of the command. -/
def readProgram (isStray : Bool) : List (String × Word ProgramKey) → Invocation
  | [] => .mistake
  | (_, .mark) :: _ => .mistake
  | (_, .unknown) :: rest => readProgram true rest
  | (_, .option spelling) :: _ =>
    match spelling.cluster programForms with
    | .ok cluster => ProgramKey.invocationOf cluster
    | .error _ => .mistake
  | (text, .plain _) :: rest =>
    if text = convertName then readConvert isStray (rest.map (·.1)) else .mistake

/-- Reads the texts of a command line. -/
def Invocation.ofTexts (texts : List String) : Invocation :=
  match classify programForms texts with
  | .ok words => readProgram false (texts.zip words)
  | .error _ => .mistake

end Courier.Command
