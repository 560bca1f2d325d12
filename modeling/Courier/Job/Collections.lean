import Courier.Collection.Layout
import Courier.Collection.Title
import Courier.Job.Environments
import Courier.Report.Basic

/-!
# Converting collections

A job converts one document or a whole directory and writes the collection.  In a directory, the
documents that cannot be read, parsed or validated are left out and named in a report; the others
are still converted.
-/

namespace Courier.Job

open Script (Strategy)

/-- What the names of written collections end in. -/
def collectionSuffix : String := ".postman_collection.json"

/-- The output that is given, unless it is empty. -/
def outputOr (output : Option String) (other : String) : String :=
  (output.filter (· ≠ "")).getD other

/-! ## One document -/

/-- What came of one document. -/
structure Converted where
  collection : Json
  outputPath : String
  warnings : List String
  deriving Repr

/-- The output for a document stands beside it. -/
def outputBeside (document : String) : String :=
  Path.under (Path.parent document) (Path.stem document ++ collectionSuffix)

/-- Refuses an input that is no document. -/
def checkInput (path : String) : Except Refusal Unit :=
  if Discovery.hasExtension path then .ok ()
  else .error (.wrongInput (String.ofList (Path.extension path.toList)))

/-- Converts one document. -/
def convertDocument (strategy : Strategy) (output : Option String) (title : Json)
    (document : String) : Job Converted := do
  ofExcept .refused (checkInput document)
  report .debug s!"Parsing Bruno file {document}..."
  let r ← readRequest document
  report .debug s!"Parsed request: {r.method.name} {r.url}"
  let path := outputOr output (outputBeside document)
  ofExcept .refused (checkOutput path)
  let (collection, warnings) ← ofConverting (Collection.ofRequest strategy title r)
  writeJson path collection
  report .info s!"Conversion successful: {path}"
  return ⟨collection, path, warnings⟩

/-! ## Trees of documents -/

/-- The tree of the documents at paths. -/
def arrange (root : String) (paths : List String) : Job (FileTree Unit) := do
  if paths.contains "" then throw .emptyPath
  let d ← disk
  reportAll .warning (d.fileTreeWarnings root paths)
  return d.fileTree root paths

/-- The kind of failure that a fault makes of a document. -/
def failureKind : Fault → FailureKind
  | .access _ => .file
  | _ => .parse

/-- Reads a document of a tree. -/
def readDocument (path : String) : Job (Except Failure Request) := do
  report .debug s!"Processing: {path}"
  match ← attempt (readRequest path) with
  | .ok r => return .ok r
  | .error fault =>
    report .debug s!"Failed to process: {path}"
    return .error ⟨path, fault.message, failureKind fault⟩

mutual

/-- Reads the documents of a tree, with the failures among them. -/
def readTree : FileTree Unit → Job (FileTree (Option Request) × List Failure)
  | .file name path () => do
    match ← readDocument path with
    | .ok r => return (.file name path (some r), [])
    | .error failure => return (.file name path none, [failure])
  | .folder name path label children => do
    let (children, failures) ← readTrees children
    return (.folder name path label children, failures)

def readTrees : List (FileTree Unit) → Job (List (FileTree (Option Request)) × List Failure)
  | [] => return ([], [])
  | t :: ts => do
    let (t, failures) ← readTree t
    let (ts, others) ← readTrees ts
    return (t :: ts, failures ++ others)

end

/-! ## Directories -/

/-- How a directory is converted. -/
structure BatchOptions where
  output : Option String
  title : Option String
  strategy : Strategy
  withEnvironments : Bool
  excluded : List String
  settings : Settings

/-- The documents of requests in a directory.  There has to be one. -/
def requestDocuments (excluded : List String) (directory : String) : Job (List String) := do
  let d ← disk
  let found ← ofExcept .access (Discovery.documents d excluded directory)
  let documents := found.filter fun path => !Discovery.isEnvironment d directory path
  if documents.length < found.length then
    report .debug
      s!"Excluded {found.length - documents.length} environment files from request conversion"
  if documents.isEmpty then throw (.refused (.noRequests directory))
  return documents

/-- The collection of documents, with the warnings about scripts and the failures. -/
def collect (strategy : Strategy) (title : Json) (directory : String) (documents : List String) :
    Job (Json × List String × List Failure) := do
  let (tree, unread) ← readTree (← arrange directory documents)
  let options : Collection.Options := ⟨strategy, Collection.validateItem, true⟩
  let y ← ofConverting (Converting.ofBuilding (Collection.buildTree options tree))
  let collection ← ofConverting
    (Collection.finish title (Collection.itemsJson y.items))
  return (collection, y.warnings, unread ++ y.failures)

/-- The environments of a collection are written beside it. -/
def environmentsBeside (output directory : String) : Job (List String) := do
  let absolute := Path.absolute (← disk).cwdPath output.toList
  convertEnvironments directory (String.ofList (Path.directory absolute))

/-- Converts a directory. -/
def convertDirectory (o : BatchOptions) (directory : String) : Job (Json × Report) := do
  let documents ← requestDocuments o.excluded directory
  let (title, warnings) := Collection.resolveTitle (← disk) o.title o.settings directory
  reportAll .warning warnings
  report .info s!"Converting collection '{title.display}' ({documents.length} files)"
  let path := outputOr o.output (Path.under directory (title.display ++ collectionSuffix))
  ofExcept .refused (checkOutput path)
  let (collection, scriptWarnings, failures) ← collect o.strategy title directory documents
  reportAll .debug scriptWarnings
  writeJson path collection
  let environments ←
    if o.withEnvironments then environmentsBeside path directory else pure []
  let s ← surroundings
  return (collection, {
    total := documents.length
    failures
    duration := s.duration
    warnings := warnings ++ scriptWarnings
    outputPath := path
    environments })

end Courier.Job
