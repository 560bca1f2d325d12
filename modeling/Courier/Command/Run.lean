import Courier.Command.Arguments
import Courier.Command.Help
import Courier.Job.Collections
import Courier.Settings.File

/-!
# Running the program

The command converts its input, uploads the collection when it is asked to, and reports.  Arguments
count before settings.  What is reported on the way goes to the output or, when the output is the
report as JSON, beside it.

A fault that is to be expected ends the command with an error; any other fault ends the run.
-/

namespace Courier.Command

/-- What a run ends with: its exit code and its two outputs. -/
structure Answer where
  exit : Nat
  output : String
  errors : String
  deriving DecidableEq, Repr

/-- The exit codes of a success, of a failure and of a mistake in the arguments. -/
def successCode : Nat := 0

def failureCode : Nat := 1

def mistakeCode : Nat := 2

/-! ## Arguments before settings -/

/-- The value of an argument, or else of a setting. -/
def setting (argument : Option String) (settings : Settings) (key : Settings.Key) : Json :=
  match argument with
  | some value => .string value
  | none => settings.get key

/-- A truth value that is set by a flag, or else the value of a setting. -/
def flagSetting (flag : Bool) (settings : Settings) (key : Settings.Key) : Json :=
  if flag then .bool true else settings.get key

/-- The setting that chooses the conversion of scripts through their syntax tree. -/
def treeWord : String := "ast"

/-- How scripts are converted, given what yields their syntax trees. -/
def strategyOf (provider : Script.Provider) (a : Arguments) (settings : Settings) :
    Script.Strategy :=
  match flagSetting a.tree settings .scriptConversion with
  | .bool true => .tree provider
  | .string word =>
    if word.toList.map Char.toLower = treeWord.toList then .tree provider else .textual
  | _ => .textual

/-- The absolute path of the output, when one is given. -/
def outputOf (d : Disk) (a : Arguments) (settings : Settings) :
    Except SettingFault (Option String) := do
  let path ← Settings.path? (setting a.output settings .output)
  return path.map fun path => String.ofList (Path.absolute d.cwdPath path.toList)

/-- The title that a document is to have. -/
def titleOf (a : Arguments) (settings : Settings) : Json :=
  match a.name.filter (· ≠ "") with
  | some name => .string name
  | none => settings.get .collectionName

/-! ## Uploading -/

/-- Sends a call and takes the reply to it. -/
def send (call : Call) : Job Reply := do
  modify fun p => { p with calls := p.calls ++ [call] }
  return (← Job.surroundings).reply call

/-- Uploads a collection. -/
def upload (a : Arguments) (settings : Settings) (collection : Json) : Job Unit := do
  let s ← Job.surroundings
  let value := setting a.collectionId settings .collectionId
  let id := if value.isPresent then some value.display else none
  let key := Upload.resolveKey a.uploadKey s.key
  let call ← Job.ofExcept .upload (Upload.prepare Upload.serviceUrl id key collection)
  let _ ← Job.ofExcept .upload (← Upload.run Job.report send call)
  Job.report .info s!"Upload successful: collection {value.display} updated in Postman"

/-! ## The command -/

/-- Converts the input, with a report when it is a directory. -/
def convertInput (a : Arguments) (settings : Settings) (strategy : Script.Strategy)
    (output : Option String) (input : String) : Job (Json × Option Report) := do
  if (← Job.disk).isDirectory input.toList then
    let excluded ← Job.ofExcept .setting (Settings.names (settings.get .excludedDirectories))
    let environments := flagSetting a.environments settings .includeEnvironments
    let options : Job.BatchOptions :=
      { output, title := a.name, strategy, withEnvironments := environments.isPresent, excluded,
        settings }
    let (collection, report) ← Job.convertDirectory options input
    return (collection, some report)
  else
    let converted ← Job.convertDocument strategy output (titleOf a settings) input
    Job.reportAll .debug converted.warnings
    return (converted.collection, none)

/-- Converts the input and uploads the collection when that is asked for. -/
def convertAndUpload (a : Arguments) (settings : Settings) (strategy : Script.Strategy)
    (output : Option String) (input : String) : Job (Option Report) := do
  let (collection, report) ← convertInput a settings strategy output input
  if a.upload then upload a settings collection
  return report

/-- Reports in plain text what came of a batch. -/
def announce (r : Report) : Job Unit := do
  Job.report .info ""
  Job.report .info r.summary.text
  if r.converted > 0 then Job.report .info s!"Conversion completed: {r.outputPath}"

/-- What comes after a conversion: the exit code and the report as JSON, if it is asked for. -/
def conclude (a : Arguments) : Option Report → Job (Nat × String)
  | none => return (successCode, "")
  | some report => do
    let exit := if report.failures.isEmpty then successCode else failureCode
    if a.json then return (exit, Json.print Json.fileLayout report.toJson ++ "\n")
    announce report
    return (exit, "")

/-- Ends the command with an error. -/
def refuse (text : String) : Job (Nat × String) := do
  Job.report .error text
  return (failureCode, "")

/-- The directory whose settings hold for an input. -/
def settingsDirectory (d : Disk) (input : String) : String :=
  if d.isDirectory input.toList then input else Path.parent input

/-- Converts an input that is there. -/
def convertExisting (a : Arguments) (input : String) : Job (Nat × String) := do
  let d ← Job.disk
  let settings ← Settings.load (settingsDirectory d input) a.settings
  let s ← Job.surroundings
  let strategy := strategyOf (.ofLanguages s.languages) a settings
  if strategy.isTree then Job.report .debug "Using experimental AST-based script conversion"
  let output ← Job.ofExcept .setting (outputOf d a settings)
  match ← Job.attempt (convertAndUpload a settings strategy output input) with
  | .ok report => conclude a report
  | .error fault => refuse s!"Conversion failed: {fault.message}"

/-- Runs the command that converts, and returns its exit code and the report as JSON. -/
def convert (a : Arguments) : Job (Nat × String) :=
  Job.withLogFile a.logFile do
    let d ← Job.disk
    let input := Path.absolute d.cwdPath a.input.toList
    if d.exists? input then convertExisting a (String.ofList input)
    else refuse s!"Input not found: {String.ofList input}"

/-! ## The program -/

/-- The answer of the command: its entries go where the report does not. -/
def answerOf (a : Arguments) (exit : Nat) (report : String) (entries : List Log.Entry) : Answer :=
  let console := Log.consoleText a.verbose entries
  if a.json then ⟨exit, report, console⟩ else ⟨exit, console, ""⟩

/-- Runs the program on the texts of a command line. -/
def run (texts : List String) : Job Answer :=
  match Invocation.ofTexts texts with
  | .help => return ⟨successCode, textOfLines programHelp, ""⟩
  | .version => return ⟨successCode, textOfLines versionLines, ""⟩
  | .convertHelp => return ⟨successCode, textOfLines convertHelp, ""⟩
  | .mistake => return ⟨mistakeCode, "", textOfLines (programHelp.take 1)⟩
  | .convert a => do
    let before := (← get).entries.length
    let (exit, report) ← convert a
    return answerOf a exit report ((← get).entries.drop before)

end Courier.Command
