import Courier.Job.Basic
import Courier.Yaml.Reader

/-!
# Files of settings

The settings of a collection stand in a file of its directory, or in any other file that is given.
A file that is missing or does not hold a mapping counts as one without settings, with a warning.
Only a path that no file can have ends the job, and a document that cannot be read for another
reason than its syntax, such as one whose octets are no text.

How a document is read is left open: `loadBy` takes a reader of documents.  `load` reads them as
texts in UTF-8.
-/

namespace Courier.Settings

/-- The names of the file in the order in which they are tried. -/
def fileNames : List String := ["bru2postman.yaml", "bru2postman.yml"]

/-- The file of settings in a directory. -/
def fileIn? (d : Disk) (directory : String) : Option String :=
  (fileNames.map (Path.under directory)).find? fun path => d.isFile path.toList

/-- Why a file holds no settings. -/
inductive FileFault where
  | missing
  | unreadable (fault : SystemFault)
  | invalid
  | noMapping
  deriving DecidableEq, Repr

/-- The warning about a file. -/
def FileFault.message (path : String) : FileFault → String
  | .missing => s!"Config file not found: {path}"
  | .unreadable fault => s!"Could not read config file {path}: {fault.message}"
  | .invalid => s!"YAML syntax error in config file {path}"
  | .noMapping => s!"Invalid format in config file: {path}. Expected a dictionary."

/-- Why a document gives no value: its syntax, or another fault that it is read with. -/
inductive DocumentFault (ε : Type) where
  | malformed
  | other (fault : ε)
  deriving DecidableEq, Repr

/-- A reader of documents gives the value that stands in some octets. -/
abbrev DocumentReader (ε : Type) := List UInt8 → Except (DocumentFault ε) Json

/-- Reads a document as a text in UTF-8. -/
def readDocument : DocumentReader Text.Utf8.Fault := fun octets =>
  match Text.Utf8.decode octets with
  | .error fault => .error (.other fault)
  | .ok text =>
    match Yaml.read? (Disk.unifyLineEnds text) with
    | none => .error .malformed
    | some value => .ok value

/-- The settings that a value stands for.  A value that is null gives none. -/
def ofValue : Json → Except FileFault (Option Settings)
  | .null => .ok none
  | .object members => .ok (some members)
  | _ => .error .noMapping

/-- The fault of a file that the system refuses to read. -/
def refusal (cause : SystemCause) (named : Option String) : FileFault :=
  if cause.number = SystemCause.notFound.number then .missing
  else .unreadable (.refused cause named)

/-- The settings that a file gives, or why it holds none.  Fails where no file can have the path, and
with a fault of the reader that is not about the syntax, as `escape` says. -/
def ofFile {ε : Type} (read : DocumentReader ε) (escape : ε → Fault) (d : Disk) (path : String) :
    Except Fault (Except FileFault (Option Settings)) :=
  match d.fetch path.toList with
  | .error .nullInPath => .error (.system .nullInPath)
  | .error (.refused cause named) => .ok (.error (refusal cause named))
  | .ok octets =>
    match read octets with
    | .ok value => .ok (ofValue value)
    | .error .malformed => .ok (.error .invalid)
    | .error (.other fault) => .error (escape fault)

/-- Loads the settings from a file. -/
def loadFile {ε : Type} (read : DocumentReader ε) (escape : ε → Fault) (path : String) :
    Job Settings := do
  match ← Job.ofExcept id (ofFile read escape (← Job.disk) path) with
  | .error fault => do
    Job.report .warning (fault.message path)
    return []
  | .ok none => return []
  | .ok (some settings) => do
    Job.report .debug s!"Config loaded from {path}: {settings.length} keys."
    return settings

/-- The file to load: the one that is given, or else the one in a directory.  An empty directory has
none. -/
def chosen? (d : Disk) (directory given : Option String) : Option String :=
  given <|> (directory.filter (· ≠ "")).bind (fileIn? d)

/-- Loads the settings from the chosen file by a reader of documents.  A fault of the reader ends
the job as `escape` says. -/
def loadBy {ε : Type} (read : DocumentReader ε) (escape : ε → Fault)
    (directory given : Option String) : Job Settings := do
  match chosen? (← Job.disk) directory given with
  | none => return []
  | some path => loadFile read escape path

/-- Loads the settings from the chosen file. -/
def load (directory given : Option String) : Job Settings :=
  loadBy readDocument .encoding directory given

end Courier.Settings
