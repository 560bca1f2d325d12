import Courier.Files.Access
import Courier.Json.Reader
import Courier.Settings.Basic

/-!
# The title of a collection

A collection is called what the user says, or else what the settings say, or else what its own
description says, or else after its directory.  A description that is missing or odd is warned
about.  A title is a text, which may hold halves of surrogate pairs.
-/

namespace Courier.Collection

/-- The file in which a collection describes itself. -/
def descriptionFile : String := "bruno.json"

/-- The warnings about the version and the type in a description. -/
def descriptionWarnings (description : Json) : List String :=
  let member (key : String) : Json := (description.get? key).getD .null
  let warning (part expected : String) (value : Json) : String :=
    s!"{descriptionFile} has invalid {part} (expected \"{expected}\", got \"{value.display}\")"
  (if (member "version").display = "1" then [] else [warning "version" "1" (member "version")]) ++
  match member "type" with
  | .string "collection" => []
  | other => [warning "type" "collection" other]

/-- The name in a description, unless it is blank. -/
def describedName? (description : Json) : Option Json :=
  match description.get? "name" with
  | some (.string name) => if Text.trim name.toList = [] then none else some (.string name)
  | some (.broken name) => some (.broken name)
  | _ => none

/-- The title in the text of a description, or else `fallback`, with warnings. -/
def describedTitle (fallback : String) (text : List Char) : Json × List String :=
  let unusable (reason : String) : Json × List String :=
    (.string fallback, [s!"Failed to parse {descriptionFile}: {reason}. Using directory name instead."])
  match Json.read text with
  | .error fault => unusable (fault.message text)
  | .ok (.object members) =>
    let description := Json.object members
    match describedName? description with
    | some name => (name, descriptionWarnings description)
    | none =>
      (.string fallback, descriptionWarnings description ++
        [s!"{descriptionFile} has empty name, falling back to directory name"])
  | .ok _ => unusable "expected an object"

/-- The title that the directory of a collection gives it, with warnings. -/
def titleOfDirectory (d : Disk) (directory : String) : Json × List String :=
  let fallback := String.ofList (Path.directoryName directory.toList)
  let file := Path.under directory descriptionFile
  if !d.exists? file.toList then
    (.string fallback, [s!"{descriptionFile} not found, using directory name"])
  else match d.readText file with
    | .error fault =>
      (.string fallback,
        [s!"Failed to parse {descriptionFile}: {fault.message}. Using directory name instead."])
    | .ok text => describedTitle fallback text

/-- A value as a text. -/
def titleText : Json → Json
  | .broken s => .broken s
  | value => .string value.display

/-- The title of the collection in a directory, with warnings. -/
def resolveTitle (d : Disk) (given : Option String) (settings : Settings) (directory : String) :
    Json × List String :=
  match given.filter (· ≠ "") with
  | some title => (.string title, [])
  | none =>
    let title := settings.get .collectionName
    if title.isPresent then (titleText title, []) else titleOfDirectory d directory

end Courier.Collection
