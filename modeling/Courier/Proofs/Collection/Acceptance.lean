import Courier.Proofs.Collection.Validity
import Courier.Proofs.Schema.Idempotence
import Mathlib.Tactic.Common

/-!
# What is accepted

Validation gives a value that it accepts again, as it is.  That value has the declared fields of its
record only and no null at any depth.  In an accepted item, and among the items below it, each one is
either a request or a folder without events (`LeafOrGroup`); the same holds for the items of a
collection (`Grouped`).

* `sound_catalog` makes `Schema.normalise_spec` available for the records of the formats.
* `leafOrGroup_of_normalise` is about one item, `grouped_of_normalise` about all that are below.
* `validation_idempotent` is the statement about items, collections and environments.
-/

namespace Courier.Collection

open Outcome (mapError_eq_ok)
open Schema (Normal OfShape Shape FieldRule normalise)

/-! ## The catalog -/

/-- What fills a field is as if it had been read. -/
def Fills (field : FieldRule Model) : Prop := ∀ value, field.absence = .filled value →
  Normal Model.catalog value field.shape ∧ OfShape Model.catalog field.shape value

theorem fills_required (key : String) (shape : Shape Model) : Fills (Model.required key shape) :=
  nofun

theorem fills_optional (key : String) (shape : Shape Model) : Fills (Model.optional key shape) :=
  nofun

theorem fills_text (key value : String) (otherKeys : List String) :
    Fills ⟨key, .text, .filled (.string value), otherKeys⟩ := by
  rintro _ ⟨⟩
  exact ⟨Schema.normal_text value, .text value⟩

theorem fills_word (key : String) {value : String} {words : List String} (h : value ∈ words)
    (otherKeys : List String) :
    Fills ⟨key, .oneOf words, .filled (.string value), otherKeys⟩ := by
  rintro _ ⟨⟩
  exact ⟨Schema.normal_oneOf h, .oneOf value h⟩

theorem fills_refused (key : String) (shape : Shape Model) (otherKeys : List String) :
    Fills ⟨key, shape, .refused, otherKeys⟩ :=
  nofun

theorem fills_header : Fills ⟨"header", .list (.record .header), .filled (.array []), []⟩ := by
  rintro _ ⟨⟩
  exact ⟨Schema.normal_list (by simp), .list (by simp)⟩

theorem fills_enabled : Fills ⟨"enabled", .flag, .filled (.bool true), []⟩ := by
  rintro _ ⟨⟩
  exact ⟨Schema.normal_flag true, .flag true⟩

theorem fills_fields (model : Model) : ∀ field ∈ Model.fields model, Fills field := by
  cases model <;>
    simp [Model.fields, Model.description, Model.disabled, Model.attributes, Model.textOr,
      fills_required, fills_optional, fills_refused, fills_text, fills_word, fills_header,
      fills_enabled]

theorem sound_catalog : Model.catalog.Sound where
  keys := distinctKeys_catalog
  filled := fills_fields

/-! ## Leaves and groups -/

/-- A value other than null is given under the key. -/
def Has (key : String) (v : Json) : Prop := ∃ value, v.get? key = some value ∧ value ≠ .null

/-- The item is either a request or a folder, and a folder has no events. -/
structure LeafOrGroup (v : Json) : Prop where
  either : Has "item" v ↔ ¬ Has "request" v
  eventless : Has "item" v → ∀ e es, v.get? "event" ≠ some (.array (e :: es))

/-- An item is among those of a value, or further below. -/
inductive ItemBelow : Json → Json → Prop
  | child {v u : Json} {items : List Json} (items_of : v.get? "item" = some (.array items))
      (mem : u ∈ items) : ItemBelow v u
  | deeper {v u w : Json} {items : List Json} (items_of : v.get? "item" = some (.array items))
      (mem : w ∈ items) (below : ItemBelow w u) : ItemBelow v u

/-- All items below the value, at every depth, are requests or folders. -/
def Grouped (v : Json) : Prop := ∀ u, ItemBelow v u → LeafOrGroup u

variable {v w : Json} {model : Model}

/-- A value is read as a record that has the values that are given for optional fields. -/
theorem has_iff (h : normalise Model.catalog v (.record model) = .ok w) (key : String)
    (shape : Shape Model) (hfield : Model.optional key shape ∈ Model.fields model) :
    Has key v ↔ (w.get? key).isSome := by
  obtain ⟨members, rfl⟩ := Schema.exists_members_of_record h
  constructor
  · rintro ⟨value, hvalue, hnull⟩
    obtain ⟨normal, -, hnormal⟩ :=
      Schema.get?_of_lookup (distinctKeys_catalog model) h hfield hvalue hnull
    exact Option.isSome_iff_exists.2 ⟨normal, hnormal⟩
  · intro hsome
    by_contra hnot
    have hnone : w.get? key = none :=
      Schema.get?_eq_none (distinctKeys_catalog model) h hfield rfl rfl
        fun value hvalue => by_contra fun hnull => hnot ⟨value, hvalue, hnull⟩
    rw [hnone] at hsome
    cases hsome

/-- The rule of items. -/
theorem rule_item_eq_none {members : List (String × Json)} (h : Model.rule .item members = none) :
    ((members.lookup "item").isSome ↔ ¬ (members.lookup "request").isSome) ∧
    ((members.lookup "item").isSome → Model.hasItems "event" members = false) := by
  rw [Model.rule, if_neg (not_not_intro rfl)] at h
  split at h
  · cases h
  · split at h
    · cases h
    · rename_i hne hevents
      cases hitem : (members.lookup "item").isSome <;>
        cases hrequest : (members.lookup "request").isSome <;> simp_all

/-- An accepted item is either a request or a folder without events. -/
theorem leafOrGroup_of_normalise (h : normalise Model.catalog v (.record .item) = .ok w) :
    LeafOrGroup v := by
  have hitem := has_iff h "item" (.list (.record .item)) (by simp [Model.fields])
  have hrequest := has_iff h "request" (.record .request) (by simp [Model.fields])
  obtain ⟨members, rfl⟩ := Schema.exists_members_of_record h
  obtain ⟨results, -, hrule, rfl⟩ := Schema.normaliseRecord_eq_ok h
  obtain ⟨hexactly, hevents⟩ := rule_item_eq_none hrule
  refine ⟨?_, fun hfolder e es hgiven => ?_⟩
  · rw [hitem, hrequest]
    exact hexactly
  · have heventField : Model.optional "event" (.list (.record .event)) ∈ Model.fields .item := by
      simp [Model.fields]
    obtain ⟨normal, hnormal, hread⟩ := Schema.get?_of_lookup (distinctKeys_catalog .item) h
      heventField hgiven nofun
    obtain ⟨values, rfl, hvalues⟩ := Schema.normalise_list_eq_ok hnormal
    have hempty : Model.hasItems "event" (results.filterMap id) = false :=
      hevents (hitem.1 hfolder)
    have hlookup : (results.filterMap id).lookup "event" = some (.array values) := hread
    rw [Model.hasItems, hlookup] at hempty
    rcases values with _ | ⟨value, values⟩
    · cases hvalues
    · cases hempty

/-- Values of the record have items under the key that items themselves have them under. -/
def HoldsItems (model : Model) : Prop :=
  ∃ field ∈ Model.fields model, field.key = "item" ∧ field.shape = .list (.record .item)

theorem holdsItems_item : HoldsItems .item :=
  ⟨Model.optional "item" (.list (.record .item)), by simp [Model.fields], rfl, rfl⟩

theorem holdsItems_collection : HoldsItems .collection :=
  ⟨Model.required "item" (.list (.record .item)), by simp [Model.fields], rfl, rfl⟩

/-- The items of an accepted value are accepted. -/
theorem exists_normalise_of_mem {items : List Json} (hmodel : HoldsItems model)
    (h : normalise Model.catalog v (.record model) = .ok w)
    (hitems : v.get? "item" = some (.array items)) :
    ∀ item ∈ items, ∃ u, normalise Model.catalog item (.record .item) = .ok u := by
  intro item hitem
  obtain ⟨field, hfield, hkey, hshape⟩ := hmodel
  obtain ⟨members, rfl⟩ := Schema.exists_members_of_record h
  have hlookup : members.lookup field.key = some (.array items) := hkey ▸ hitems
  obtain ⟨normal, hnormal, -⟩ :=
    Schema.get?_of_lookup (distinctKeys_catalog model) h hfield hlookup nofun
  rw [hshape] at hnormal
  obtain ⟨values, -, hvalues⟩ := Schema.normalise_list_eq_ok hnormal
  have hmem : normalise Model.catalog item (.record .item) ∈ values.map .ok :=
    hvalues ▸ List.mem_map_of_mem hitem
  obtain ⟨u, -, hu⟩ := List.mem_map.1 hmem
  exact ⟨u, hu.symm⟩

/-- All items below an accepted value are accepted, and so they are requests or folders. -/
theorem grouped_of_normalise (hmodel : HoldsItems model)
    (h : normalise Model.catalog v (.record model) = .ok w) : Grouped v := by
  intro u hbelow
  induction hbelow generalizing model w with
  | child items_of mem =>
    obtain ⟨normal, hnormal⟩ := exists_normalise_of_mem hmodel h items_of _ mem
    exact leafOrGroup_of_normalise hnormal
  | deeper items_of mem _ ih =>
    obtain ⟨normal, hnormal⟩ := exists_normalise_of_mem hmodel h items_of _ mem
    exact ih holdsItems_item hnormal

/-! ## Validation -/

theorem validateItem_eq_ok : validateItem v = .ok w ↔
    normalise Model.catalog v (.record .item) = .ok w := mapError_eq_ok

theorem validateCollection_eq_ok : validateCollection v = .ok w ↔
    normalise Model.catalog v (.record .collection) = .ok w := mapError_eq_ok

theorem validateEnvironment_eq_ok : validateEnvironment v = .ok w ↔
    normalise Model.catalog v (.record .environment) = .ok w := mapError_eq_ok

/-- What validation makes of an accepted value is accepted as it is.  It is made of declared fields,
without a null.  Every item, given or made, at every depth, is a request or a folder without events. -/
theorem validation_idempotent (v w : Json) :
    (validateItem v = .ok w →
      validateItem w = .ok w ∧ OfShape Model.catalog (.record .item) w ∧ ¬ w.HoldsNull ∧
      (LeafOrGroup v ∧ Grouped v) ∧ LeafOrGroup w ∧ Grouped w) ∧
    (validateCollection v = .ok w →
      validateCollection w = .ok w ∧ OfShape Model.catalog (.record .collection) w ∧
      ¬ w.HoldsNull ∧ Grouped v ∧ Grouped w) ∧
    (validateEnvironment v = .ok w →
      validateEnvironment w = .ok w ∧ OfShape Model.catalog (.record .environment) w ∧
      ¬ w.HoldsNull) := by
  rw [validateItem_eq_ok, validateItem_eq_ok, validateCollection_eq_ok, validateCollection_eq_ok,
    validateEnvironment_eq_ok, validateEnvironment_eq_ok]
  refine ⟨fun h => ?_, fun h => ?_, fun h => ?_⟩
  · obtain ⟨hnormal, hshape⟩ := Schema.normalise_spec sound_catalog h
    exact ⟨hnormal, hshape, hshape.not_holdsNull,
      ⟨leafOrGroup_of_normalise h, grouped_of_normalise holdsItems_item h⟩,
      leafOrGroup_of_normalise hnormal, grouped_of_normalise holdsItems_item hnormal⟩
  · obtain ⟨hnormal, hshape⟩ := Schema.normalise_spec sound_catalog h
    exact ⟨hnormal, hshape, hshape.not_holdsNull, grouped_of_normalise holdsItems_collection h,
      grouped_of_normalise holdsItems_collection hnormal⟩
  · obtain ⟨hnormal, hshape⟩ := Schema.normalise_spec sound_catalog h
    exact ⟨hnormal, hshape, hshape.not_holdsNull⟩

/-- A folder with a request, as it may be given: with a null, and with a member that is not declared. -/
def givenFolder : Json := .object [
  ("name", .string "Users"), ("description", .null), ("color", .string "red"),
  ("item", .array [.object [
    ("name", .string "List"), ("item", .null),
    ("request", .object [
      ("url", .object [("raw", .string "https://host/users"), ("port", .null)]),
      ("method", .string "GET"),
      ("header", .array [.object [
        ("key", .string "Accept"), ("value", .string "*/*"), ("disabled", .string "no")]])])]])]

/-- The folder as validation leaves it. -/
def normalFolder : Json := .object [
  ("name", .string "Users"),
  ("item", .array [.object [
    ("name", .string "List"),
    ("request", .object [
      ("method", .string "GET"),
      ("header", .array [.object [
        ("key", .string "Accept"), ("value", .string "*/*"), ("type", .string "text"),
        ("disabled", .bool false)]]),
      ("url", .object [("raw", .string "https://host/users")])])]])]

/-- A collection with that folder, without the address of the format. -/
def givenCollection : Json :=
  .object [("info", .object [("name", .string "API")]), ("item", .array [givenFolder])]

/-- An environment whose fields are given under their second keys. -/
def givenEnvironment : Json := .object [
  ("id", .string "1"), ("name", .string "dev"),
  ("values", .array [.object [
    ("key", .string "host"), ("value", .string "h"), ("enabled", .int 0)]]),
  ("exported_at", .string "now"), ("exported_using", .string "hand")]

/-- The environment as validation leaves it. -/
def normalEnvironment : Json := .object [
  ("id", .string "1"), ("name", .string "dev"),
  ("values", .array [.object [
    ("key", .string "host"), ("value", .string "h"), ("enabled", .bool false),
    ("type", .string "default")]]),
  ("_postman_variable_scope", .string "environment"), ("_postman_exported_at", .string "now"),
  ("_postman_exported_using", .string "hand")]

theorem validation_idempotent_given :
    (validateItem givenFolder = .ok normalFolder ∧
      validateItem normalFolder = .ok normalFolder ∧ Grouped givenFolder) ∧
    (validateCollection givenCollection = .ok (collectionJson (.string "API") [normalFolder]) ∧
      ¬ (collectionJson (.string "API") [normalFolder]).HoldsNull ∧ Grouped givenCollection) ∧
    validateEnvironment givenEnvironment = .ok normalEnvironment ∧
      validateEnvironment normalEnvironment = .ok normalEnvironment := by
  have hitem : validateItem givenFolder = .ok normalFolder := rfl
  have hcollection : validateCollection givenCollection =
    .ok (collectionJson (.string "API") [normalFolder]) := rfl
  have henvironment : validateEnvironment givenEnvironment = .ok normalEnvironment := rfl
  obtain ⟨hagain, -, -, ⟨-, hgrouped⟩, -⟩ := (validation_idempotent _ _).1 hitem
  obtain ⟨-, -, hnulls, hbelow, -⟩ := (validation_idempotent _ _).2.1 hcollection
  exact ⟨⟨hitem, hagain, hgrouped⟩, ⟨hcollection, hnulls, hbelow⟩, henvironment,
    ((validation_idempotent _ _).2.2 henvironment).1⟩

end Courier.Collection
