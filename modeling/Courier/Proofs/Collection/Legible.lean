import Courier.Proofs.Collection.Acceptance
import Courier.Proofs.Json.RoundTrip
import Mathlib.Tactic.Common

/-!
# Reading what was written

Collections and environments are validated before they are written.  What validation gives can be
read from its text as it is (`legible_of_validateCollection`, `legible_of_validateEnvironment`): no
record has a field for a map, whose keys might repeat, and no field holds a number with a fraction.

`legible_of_normalise` says so for every catalog of that kind, by induction on the value that is
read.
-/

namespace Courier

open Json (Legible)
open Outcome (bind_eq_ok map_eq_ok)

namespace Schema

variable {M : Type} {c : Catalog M}

/-- The shape is not that of a map, nor of a list of maps. -/
def Shape.Plain : Shape M → Prop
  | .textMap => False
  | .list item => item.Plain
  | _ => True

/-- No record has a field for a map, and what fills a field is legible. -/
structure Catalog.Plain (c : Catalog M) : Prop where
  shapes : ∀ model, ∀ field ∈ c.fields model, field.shape.Plain
  filled : ∀ model, ∀ field ∈ c.fields model, ∀ value, field.absence = .filled value →
    Legible value

theorem legible_of_normaliseScalar {name : M → String} {v w : Json} {shape : Shape M}
    (h : normaliseScalar name v shape = .ok w) : Legible w := by
  cases shape with
  | text =>
    obtain ⟨s, -, rfl⟩ := map_eq_ok.1 h
    exact .string s
  | nonemptyText =>
    obtain ⟨s, -, h⟩ := bind_eq_ok.1 h
    split at h
    · cases h
    · cases h
      exact .string s
  | flag =>
    obtain ⟨b, -, rfl⟩ := map_eq_ok.1 h
    exact .bool b
  | integer =>
    obtain ⟨n, -, rfl⟩ := map_eq_ok.1 h
    exact .int n
  | oneOf words =>
    obtain ⟨s, -, rfl⟩ := map_eq_ok.1 h
    exact .string s
  | list _ | textMap | record _ => cases h

/-- The members that are read of a record stand under keys of different fields. -/
theorem keys_of_forall₂ {fields : List (FieldRule M)} {members : List (String × Json)}
    {results : List (Option (String × Json))}
    (h : List.Forall₂ (fun field result =>
      field.normalise (memberReadings c members) = .ok result) fields results) :
    ((results.filterMap id).map Prod.fst).Sublist (fields.map FieldRule.key) := by
  induction h with
  | nil => exact .slnil
  | @cons field result fields results hresult _ ih =>
    rcases result with _ | ⟨key, value⟩
    · exact ih.cons _
    · obtain rfl : key = field.key := FieldRule.key_of_normalise hresult
      exact ih.cons_cons _

/-- What a value is read as is legible. -/
theorem legible_of_normalise (hplain : c.Plain) (hkeys : ∀ model, DistinctKeys (c.fields model))
    {v : Json} {shape : Shape M} {w : Json} (hshape : shape.Plain)
    (h : normalise c v shape = .ok w) : Legible w := by
  induction v using Json.induct generalizing shape w with
  | step v ih =>
    rcases normalise_cases c v shape with ⟨items, item, rfl, rfl⟩ | ⟨members, model, rfl, rfl⟩ |
      ⟨members, rfl, rfl⟩ | ⟨scalar, hscalar⟩
    · obtain ⟨values, rfl, hvalues⟩ := normalise_list_eq_ok h
      refine .array fun value hvalue => ?_
      obtain ⟨given, hgiven, hread⟩ := exists_item_of_mem hvalues hvalue
      have hitem : item.Plain := hshape
      exact ih given hgiven hitem hread
    · obtain ⟨results, hresults, -, rfl⟩ := normaliseRecord_eq_ok h
      refine .object ((keys_of_forall₂ hresults).nodup (hkeys model).nodup_map_key) fun m hm => ?_
      obtain ⟨field, hfield, hread⟩ := exists_field_of_mem hresults m hm
      rcases FieldRule.normalise_cases hread with ⟨hnone, -⟩ | ⟨value, hsome, habsence⟩ |
        ⟨given, hgiven, normal, hsome, hnormal⟩
      · cases hnone
      · cases hsome
        exact hplain.filled model field hfield value habsence
      · cases hsome
        exact ih given.2 (List.mem_map_of_mem hgiven) (hplain.shapes model field hfield) hnormal
    · exact absurd hshape id
    · rw [hscalar] at h
      exact legible_of_normaliseScalar h

end Schema

namespace Collection

/-- What fills a field is a text, a flag or an empty list. -/
theorem plain_catalog : Model.catalog.Plain where
  shapes model := by
    cases model <;>
      simp [Model.catalog, Model.fields, Model.required, Model.optional, Model.textOr,
        Model.description, Model.disabled, Model.attributes, Schema.Shape.Plain]
  filled model := by
    cases model <;>
      simp [Model.catalog, Model.fields, Model.required, Model.optional, Model.textOr,
        Model.description, Model.disabled, Model.attributes, Legible.string, Legible.bool,
        Legible.array]

variable {v w : Json}

theorem legible_of_validateCollection (h : validateCollection v = .ok w) : Legible w := by
  have hplain : Schema.Shape.Plain (.record Model.collection) := trivial
  exact Schema.legible_of_normalise plain_catalog distinctKeys_catalog hplain
    (validateCollection_eq_ok.1 h)

theorem legible_of_validateEnvironment (h : validateEnvironment v = .ok w) : Legible w := by
  have hplain : Schema.Shape.Plain (.record Model.environment) := trivial
  exact Schema.legible_of_normalise plain_catalog distinctKeys_catalog hplain
    (validateEnvironment_eq_ok.1 h)

end Collection

end Courier
