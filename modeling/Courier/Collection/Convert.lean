import Courier.Fault

/-!
# Whole collections

A collection is built from the text of one document or from a tree of files, and validated as a
whole.
-/

namespace Courier

/-- A computation that reports entries and may end in a fault. -/
abbrev Converting := ExceptT Fault Logging

namespace Converting

def ofExcept {α ε : Type} (fault : ε → Fault) (result : Except ε α) : Converting α :=
  ExceptT.mk (pure (result.mapError fault))

def ofBuilding {α : Type} (build : Collection.Building α) : Converting α :=
  ExceptT.mk (do return (← build.run).mapError Fault.ofBuild)

end Converting

/-- A title that counts as given, or else a name. -/
def titleOr (title : Json) (name : String) : Json :=
  if title.isPresent then title else .string name

namespace Request

/-- Reads a request and reports what is noted about its document. -/
def parse (text : List Char) : Converting Request := do
  (Logging.reportAll .debug (notices text) : Logging Unit)
  Converting.ofExcept .request (ofText text)

end Request

namespace Collection

open Script (Strategy)

/-- A validated collection of items. -/
def finish (title : Json) (items : List Json) : Converting Json :=
  Converting.ofExcept .rejected (validateCollection (collectionJson title items))

/-- The collection of one request, with the warnings about its scripts. -/
def ofRequest (strategy : Strategy) (title : Json) (r : Request) :
    Converting (Json × List String) := do
  let built ← Converting.ofBuilding (buildItem strategy r.metadata.name r)
  let collection ← finish (titleOr title r.metadata.name) [built.item]
  return (collection, built.warnings)

/-- The collection of the document of one request. -/
def ofText (strategy : Strategy) (title : Json) (text : List Char) : Converting Json := do
  let r ← Request.parse text
  return (← ofRequest strategy title r).1

/-- The collection of a tree, with the requests that were left out, of which each is reported. -/
def ofTree (o : Options) (title : Json) (tree : FileTree (Option Request)) :
    Converting (Json × List Failure) := do
  let y ← Converting.ofBuilding (buildTree { o with leaveOut := true } tree)
  (Logging.reportAll .warning
    (y.failures.map fun f => s!"Skipped {f.path}: {f.message}") : Logging Unit)
  let collection ← finish (titleOr title tree.shownName) (itemsJson y.items)
  return (collection, y.failures)

end Collection

/-- Refuses an output that is no JSON file. -/
def checkOutput (path : String) : Except Refusal Unit :=
  let lower := path.toList.map Char.toLower
  if ".json".toList.isSuffixOf lower then .ok ()
  else .error (.wrongOutput (String.ofList (Path.extension path.toList)))

end Courier
