import Courier.Collection.Request
import Courier.Script.Strategy

/-!
# Items of collections

A request becomes an item with its two scripts as events.  A collection is a list of items under a
name.
-/

namespace Courier.Collection

open Script (Role Strategy Conversion)

/-- Why an item cannot be built. -/
inductive BuildFault where
  | token (fault : Url.TokenFault)
  | rejected (rejection : Schema.Rejection)
  deriving DecidableEq, Repr

/-- A computation that builds items. -/
abbrev Building := ExceptT BuildFault Logging

/-- An event that runs a script. -/
def event (listen : String) (lines : List String) : Json :=
  .object [("listen", .string listen),
    ("script", .object [("type", .string "text/javascript"), ("exec", Json.strings lines)])]

/-- When the script of a role is run. -/
def listenerOf : Role → String
  | .preRequest => "prerequest"
  | .test => "test"

/-- A warning about the script of an item. -/
def scriptWarning (name : String) (role : Role) (warning : String) : String :=
  s!"{name} ({role.name} script): {warning}"

/-- An item with the warnings about its scripts. -/
structure Built where
  item : Json
  warnings : List String
  deriving Repr

/-- The event and the warnings of a script. -/
def convertScript (name : String) (strategy : Strategy) (role : Role) (script : Option String) :
    Logging (List Json × List String) := do
  match script with
  | none => return ([], [])
  | some script =>
    let result ← Script.convertWith strategy script.toList role
    return ([event (listenerOf role) result.lines],
      result.warnings.map (scriptWarning name role))

/-- An item from its parts.  A request without scripts has no events. -/
def itemJson (name : String) (request : Json) (events : List Json) : Json :=
  .object ([("name", .string name), ("request", request)] ++
    Json.member? "event" (nonemptyList? events))

/-- Builds the item of a request. -/
def buildItem (strategy : Strategy) (name : String) (r : Request) : Building Built := do
  ((Url.notice? r.url.toList).forM (Logging.report .debug ·) : Logging Unit)
  let request ← ExceptT.mk (pure ((convertRequest r).mapError .token))
  let (preEvents, preWarnings) ← convertScript name strategy .preRequest r.preScript
  let (testEvents, testWarnings) ← convertScript name strategy .test r.testScript
  return ⟨itemJson name request (preEvents ++ testEvents), preWarnings ++ testWarnings⟩

/-- A collection of items under a title, which is only checked with the whole. -/
def collectionJson (title : Json) (items : List Json) : Json :=
  .object [("info", .object [("name", title), ("schema", .string schemaUrl)]),
    ("item", .array items)]

end Courier.Collection
