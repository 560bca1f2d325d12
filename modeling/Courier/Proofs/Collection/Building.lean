import Courier.Collection.Convert
import Courier.Proofs.Outcome
import Courier.Proofs.Reporting
import Mathlib.Tactic.Common

/-!
# Building items

What building an item ends in is a function of the request (`itemOf`), although scripts report on
the way (`buildItem_ends`).  It fails only on an address that cannot be taken apart, and an item that
is built consists of the name, the converted request and the events of its scripts (`itemOf_eq_ok`).
-/

namespace Courier.Collection

open Logging (Yields)
open Outcome (map_eq_ok mapError_eq_ok)
open Script (Role Strategy)

/-- The conversion of a script, whatever has been reported before. -/
def conversionOf (strategy : Strategy) (script : List Char) (role : Role) : Script.Conversion :=
  ((Script.convertWith strategy script role).run []).run.1

theorem convertWith_yields (strategy : Strategy) (script : List Char) (role : Role) :
    Yields (Script.convertWith strategy script role) (conversionOf strategy script role) := by
  intro entries
  rw [conversionOf]
  rcases strategy with _ | _
  · rfl
  · simp only [Script.convertWith]
    split
    · rfl
    · rfl

/-- The events and the warnings of a script. -/
def scriptParts (name : String) (strategy : Strategy) (role : Role) :
    Option String → List Json × List String
  | none => ([], [])
  | some script =>
    let conversion := conversionOf strategy script.toList role
    ([event (listenerOf role) conversion.lines],
      conversion.warnings.map (scriptWarning name role))

theorem convertScript_yields (name : String) (strategy : Strategy) (role : Role)
    (script : Option String) :
    Yields (convertScript name strategy role script) (scriptParts name strategy role script) := by
  rcases script with _ | script
  · exact .pure _
  · exact .bind (convertWith_yields strategy script.toList role) (.pure _)

theorem mem_scriptParts {name : String} {strategy : Strategy} {role : Role}
    {script : Option String} {e : Json} (h : e ∈ (scriptParts name strategy role script).1) :
    ∃ lines, e = event (listenerOf role) lines := by
  rcases script with _ | script
  · simp [scriptParts] at h
  · exact ⟨_, List.mem_singleton.1 h⟩

/-- The item of a request under a name, with the warnings about its scripts. -/
def itemOf (strategy : Strategy) (name : String) (r : Request) : Except BuildFault Built :=
  ((convertRequest r).mapError .token).map fun request =>
    let pre := scriptParts name strategy .preRequest r.preScript
    let test := scriptParts name strategy .test r.testScript
    ⟨itemJson name request (pre.1 ++ test.1), pre.2 ++ test.2⟩

theorem buildItem_ends (strategy : Strategy) (name : String) (r : Request) :
    Ends (buildItem strategy name r) (itemOf strategy name r) := by
  refine .bind (.lift (Logging.yields_forM _ _)) ?_
  rw [itemOf]
  rcases convertRequest r with fault | request
  · exact .bind_error (.ofExcept _)
  · exact .bind (.ofExcept _) <|
      .bind (.lift (convertScript_yields name strategy .preRequest r.preScript)) <|
      .bind (.lift (convertScript_yields name strategy .test r.testScript)) (.pure _)

theorem parse_ends (text : List Char) :
    Ends (Request.parse text) ((Request.ofText text).mapError .request) :=
  .bind (.lift (Logging.yields_reportAll _ _)) (.ofExcept _)

theorem ofBuilding_ends {α : Type} {build : Building α} {result : Except BuildFault α}
    (h : Ends build result) : Ends (Converting.ofBuilding build) (result.mapError Fault.ofBuild) :=
  Yields.bind h (.pure _)

/-- An item that is built, from the address of its request. -/
theorem itemOf_eq_ok {strategy : Strategy} {name : String} {r : Request} {built : Built}
    (h : itemOf strategy name r = .ok built) :
    ∃ url events, Url.ofText r.url.toList = .ok url ∧
      built.item = itemJson name (requestJson r url) events ∧
      ∀ e ∈ events, ∃ role lines, e = event (listenerOf role) lines := by
  obtain ⟨request, hrequest, rfl⟩ := map_eq_ok.1 h
  obtain ⟨url, hurl, rfl⟩ := map_eq_ok.1 (mapError_eq_ok.1 hrequest)
  refine ⟨url, _, hurl, rfl, fun e he => ?_⟩
  rcases List.mem_append.1 he with he | he
  · exact ⟨_, mem_scriptParts he⟩
  · exact ⟨_, mem_scriptParts he⟩

/-- An item is built when the address of its request can be taken apart. -/
theorem itemOf_of_ofText (strategy : Strategy) (name : String) {r : Request} {url : Url}
    (h : Url.ofText r.url.toList = .ok url) : ∃ built, itemOf strategy name r = .ok built := by
  rw [itemOf, convertRequest, h]
  exact ⟨_, rfl⟩

end Courier.Collection
