import Courier.Collection.Discovery
import Courier.Job.Basic

/-!
# Converting the environments of a collection

Each document in the environments folder of a collection becomes a file of its own, named after the
document.  A document that cannot be converted is reported and left out.
-/

namespace Courier.Job

/-- What the names of written environments end in. -/
def environmentSuffix : String := ".postman_environment.json"

/-- The path at which the environment of a document is written. -/
def environmentTarget (target document : String) : String :=
  Path.under target (Path.stem document ++ environmentSuffix)

/-- Converts the document of an environment, unless it has no variables at all. -/
def convertEnvironment (stamp : Environment.Stamp) (target document : String) :
    Job (Option String) := do
  let text ← readText document
  if !Text.contains "vars".toList text then
    report .debug s!"Skipping {document}: no vars section"
    return none
  let environment := Environment.ofText (Path.stem document) text
  let value ← ofExcept .rejected (environment.exported stamp)
  let path := environmentTarget target document
  writeJson path value
  return some path

/-- Converts the documents of environments from a number on. -/
def convertEnvironmentsFrom (target : String) : Nat → List String → Job (List String)
  | _, [] => return []
  | number, document :: rest => do
    let s ← surroundings
    let written ← match ← attempt (convertEnvironment (s.stamp number) target document) with
      | .ok (some path) => do
        report .info s!"Converted environment: {path}"
        pure [path]
      | .ok none => pure []
      | .error fault => do
        report .warning s!"Failed to convert environment {document}: {fault.message}"
        pure []
    return written ++ (← convertEnvironmentsFrom target (number + 1) rest)

/-- Converts the environments of the collection in a directory, and returns the paths of the
written files. -/
def convertEnvironments (directory target : String) : Job (List String) := do
  let d ← disk
  let folder := Path.under directory Discovery.environmentsFolder
  if !d.isDirectory folder.toList then
    report .debug "No environments folder found, skipping environment conversion"
    return []
  let documents ← ofExcept .access (Discovery.documents d [] folder)
  convertEnvironmentsFrom target 0 documents

end Courier.Job
