import Courier.Proofs.Outcome
import Courier.Proofs.Schema.Normal
import Mathlib.Data.List.Flatten
import Mathlib.Data.List.Forall2
import Mathlib.Data.List.Nodup
import Mathlib.Tactic.Common

/-!
# What reading gives is normal

Reading a value by a shape gives a normal value: reading it again changes nothing, and it consists of
declared fields without nulls (`OfShape`).  This holds for every catalog in which no key stands for
two fields and what fills an absent field is normal itself (`Catalog.Sound`).

* `normaliseScalar_spec` is about values that are read by themselves, `normaliseRecord_eq_ok` about
  objects, whose members are read field by field.
* `normalise_spec` is induction on values (`Json.induct`), with a case for each shape.
* `get?_of_lookup` and `get?_eq_none` say what a field of an object is read as, from the value that is
  given for it.
-/

namespace Courier

namespace Json

/-! ## Parts of values -/

/-- The values that a value is made of. -/
def parts : Json → List Json
  | .array items => items
  | .object members => members.map (·.2)
  | _ => []

theorem sizeOf_lt_of_mem_parts {v p : Json} (h : p ∈ v.parts) : sizeOf p < sizeOf v := by
  cases v with
  | array items =>
    have hlt : sizeOf p < sizeOf items := List.sizeOf_lt_of_mem h
    simp only [array.sizeOf_spec]
    omega
  | object members =>
    obtain ⟨⟨key, value⟩, hmem, rfl⟩ := List.mem_map.1 h
    have hlt := List.sizeOf_lt_of_mem hmem
    simp only [Prod.mk.sizeOf_spec, object.sizeOf_spec] at hlt ⊢
    omega
  | _ => cases h

/-- A property that a value has when its parts have it is a property of all values. -/
theorem induct {P : Json → Prop} (step : ∀ v, (∀ p ∈ v.parts, P p) → P v) (v : Json) : P v :=
  step v fun p _ => induct step p
termination_by sizeOf v
decreasing_by exact sizeOf_lt_of_mem_parts ‹_›

/-- There is a null in the value, at some depth. -/
inductive HoldsNull : Json → Prop
  | null : HoldsNull .null
  | part {v p : Json} (mem : p ∈ v.parts) (holds : HoldsNull p) : HoldsNull v

end Json

namespace Schema

open Outcome (bind_eq_ok map_eq_ok mapError_eq_ok)

variable {M : Type} {c : Catalog M}

/-! ## Values of a shape -/

/-- The values that a shape describes, made of declared fields only. -/
inductive OfShape (c : Catalog M) : Shape M → Json → Prop
  | text (s : String) : OfShape c .text (.string s)
  | nonemptyText (s : String) : OfShape c .nonemptyText (.string s)
  | flag (b : Bool) : OfShape c .flag (.bool b)
  | integer (n : Int) : OfShape c .integer (.int n)
  | oneOf {words : List String} (s : String) (mem : s ∈ words) : OfShape c (.oneOf words) (.string s)
  | list {shape : Shape M} {items : List Json} (items_of : ∀ item ∈ items, OfShape c shape item) :
      OfShape c (.list shape) (.array items)
  | textMap {members : List (String × Json)} (texts : ∀ m ∈ members, ∃ s, m.2 = .string s) :
      OfShape c .textMap (.object members)
  | record {model : M} {members : List (String × Json)}
      (declared : ∀ m ∈ members, ∃ field ∈ c.fields model, m.1 = field.key)
      (members_of : ∀ m ∈ members, ∀ field ∈ c.fields model, m.1 = field.key →
        OfShape c field.shape m.2) :
      OfShape c (.record model) (.object members)

theorem OfShape.not_holdsNull {shape : Shape M} {v : Json} (h : OfShape c shape v) :
    ¬ v.HoldsNull := by
  induction h with
  | text | nonemptyText | flag | integer | oneOf =>
    rintro ⟨⟩
    simp [Json.parts] at *
  | list _ ih =>
    rintro ⟨⟩
    rename_i p holds mem
    exact ih p mem holds
  | textMap texts =>
    rintro ⟨⟩
    rename_i p holds mem
    obtain ⟨m, hm, rfl⟩ := List.mem_map.1 mem
    obtain ⟨s, hs⟩ := texts m hm
    rw [hs] at holds
    cases holds
    simp [Json.parts] at *
  | record declared _ ih =>
    rintro ⟨⟩
    rename_i p holds mem
    obtain ⟨m, hm, rfl⟩ := List.mem_map.1 mem
    obtain ⟨field, hfield, hkey⟩ := declared m hm
    exact ih m hm field hfield hkey holds

/-- A value that is given back by reading is no null. -/
theorem Normal.ne_null {v : Json} {shape : Shape M} (h : Normal c v shape) : v ≠ .null := by
  rintro rfl
  cases shape <;> simp [Normal, normalise, normaliseScalar, asText, asFlag, asInteger, asWord,
    refuse, bind, Except.bind, Except.map] at h

/-! ## Results that are gathered -/

section Gathering

variable {α β : Type}

theorem gather_eq_ok {results : List (Checked α)} {values : List α}
    (h : gather results = .ok values) : results = values.map .ok := by
  induction results generalizing values with
  | nil =>
    cases h
    rfl
  | cons result rest ih =>
    rcases result with issues | a
    · rw [gather] at h
      split at h
      · cases h
      · cases h
    · obtain ⟨values, hvalues, rfl⟩ := map_eq_ok.1 h
      rw [ih hvalues, List.map_cons]

theorem indexed_eq_map_ok {results : List (Checked α)} {values : List α} {first : Nat}
    (h : indexed first results = values.map .ok) : results = values.map .ok := by
  induction results generalizing values first with
  | nil => exact h
  | cons result rest ih =>
    rcases values with _ | ⟨a, values⟩
    · cases h
    · obtain ⟨hresult, hrest⟩ := List.cons.inj h
      rw [mapError_eq_ok.1 hresult, ih hrest, List.map_cons]

/-- Each of the results is that of one element. -/
theorem forall₂_of_map_eq {f : β → Checked α} {xs : List β} {values : List α}
    (h : xs.map f = values.map .ok) : List.Forall₂ (fun x a => f x = .ok a) xs values := by
  rw [← List.forall₂_eq_eq_eq, List.forall₂_map_left_iff, List.forall₂_map_right_iff] at h
  exact h

end Gathering

/-! ## Scalars -/

theorem asWord_eq_ok {words : List String} {v : Json} {s : String}
    (h : asWord words v = .ok s) : s ∈ words := by
  cases v with
  | string s' =>
    rw [asWord] at h
    split at h
    · cases h
      assumption
    · cases h
  | _ => cases h

/-- A value that is read by itself is a normal value of the shape. -/
theorem normaliseScalar_spec {name : M → String} {v w : Json} {shape : Shape M}
    (h : normaliseScalar name v shape = .ok w) : Normal c w shape ∧ OfShape c shape w := by
  cases shape with
  | text =>
    obtain ⟨s, -, rfl⟩ := map_eq_ok.1 h
    exact ⟨normal_text s, .text s⟩
  | nonemptyText =>
    obtain ⟨s, -, h⟩ := bind_eq_ok.1 h
    split at h
    · cases h
    · cases h
      exact ⟨normal_nonemptyText ‹_›, .nonemptyText s⟩
  | flag =>
    obtain ⟨b, -, rfl⟩ := map_eq_ok.1 h
    exact ⟨normal_flag b, .flag b⟩
  | integer =>
    obtain ⟨n, -, rfl⟩ := map_eq_ok.1 h
    exact ⟨normal_integer n, .integer n⟩
  | oneOf words =>
    obtain ⟨s, hs, rfl⟩ := map_eq_ok.1 h
    exact ⟨normal_oneOf (asWord_eq_ok hs), .oneOf s (asWord_eq_ok hs)⟩
  | list _ | textMap | record _ => cases h

/-! ## Maps to texts -/

theorem normaliseMap_spec {members : List (String × Json)} {w : Json}
    (h : normaliseMap members = .ok w) : Normal c w .textMap ∧ OfShape c .textMap w := by
  obtain ⟨texts, htexts, rfl⟩ := map_eq_ok.1 h
  have hall : ∀ m ∈ texts, ∃ s, m.2 = .string s := by
    intro m hm
    obtain ⟨⟨key, value⟩, -, hvalue⟩ := List.mem_map.1 (gather_eq_ok htexts ▸ List.mem_map_of_mem hm)
    obtain ⟨s, -, rfl⟩ := map_eq_ok.1 (mapError_eq_ok.1 hvalue)
    exact ⟨s, rfl⟩
  exact ⟨normal_texts hall, .textMap hall⟩

/-! ## Records -/

/-- No key stands for two fields of a record, and what fills a field is as if it had been read. -/
structure Catalog.Sound (c : Catalog M) : Prop where
  keys : ∀ model, DistinctKeys (c.fields model)
  filled : ∀ model, ∀ field ∈ c.fields model, ∀ value, field.absence = .filled value →
    Normal c value field.shape ∧ OfShape c field.shape value

/-- The first keys of different fields are different. -/
theorem DistinctKeys.nodup_map_key {fields : List (FieldRule M)} (h : DistinctKeys fields) :
    (fields.map FieldRule.key).Nodup := by
  have hsublist : (fields.map FieldRule.key).Sublist (fields.flatMap FieldRule.keys) := by
    rw [List.map_eq_flatMap]
    exact List.Sublist.flatMap_right _ fun field _ => by simp [FieldRule.keys]
  exact hsublist.nodup h

theorem DistinctKeys.eq_of_key {fields : List (FieldRule M)} (h : DistinctKeys fields)
    {field other : FieldRule M} (hfield : field ∈ fields) (hother : other ∈ fields)
    (hkey : field.key = other.key) : field = other :=
  List.inj_on_of_nodup_map h.nodup_map_key hfield hother hkey

variable {members : List (String × Json)} {field : FieldRule M} {result : Option (String × Json)}

/-- The value under which a field is found is given under one of its keys. -/
theorem FieldRule.exists_of_find? {key : String} {value : Json} {normal : Shape M → Checked Json}
    (h : field.find? (memberReadings c members) = some (key, value, normal)) :
    (key, value) ∈ members ∧ normal = Schema.normalise c value := by
  obtain ⟨k, -, hlookup⟩ := List.exists_of_findSome?_eq_some h
  obtain ⟨reading, hreading, heq⟩ := Option.map_eq_some_iff.1 hlookup
  cases heq
  obtain ⟨before, after, hsplit, -⟩ := List.lookup_eq_some_iff.1 hreading
  have hmem : (key, value, normal) ∈ memberReadings c members := by
    rw [hsplit]
    exact List.mem_append_right _ List.mem_cons_self
  rw [memberReadings_eq_map] at hmem
  obtain ⟨m, hm, heq⟩ := List.mem_map.1 hmem
  cases heq
  exact ⟨hm, rfl⟩

/-- A field is dropped, filled in, or read from the value of a member. -/
theorem FieldRule.normalise_cases (h : field.normalise (memberReadings c members) = .ok result) :
    (result = none ∧ field.absence = .dropped) ∨
    (∃ value, result = some (field.key, value) ∧ field.absence = .filled value) ∨
    ∃ m ∈ members, ∃ normal, result = some (field.key, normal) ∧
      Schema.normalise c m.2 field.shape = .ok normal := by
  rw [FieldRule.normalise] at h
  split at h
  · split at h
    · cases h
    · cases h
      exact .inl ⟨rfl, ‹_›⟩
    · cases h
      exact .inr (.inl ⟨_, rfl, ‹_›⟩)
  · rename_i hfind
    obtain ⟨hmem, rfl⟩ := FieldRule.exists_of_find? hfind
    split at h
    · cases h
      exact .inl ⟨rfl, ‹_›⟩
    · obtain ⟨normal, hnormal, rfl⟩ := map_eq_ok.1 h
      exact .inr (.inr ⟨_, hmem, normal, rfl, mapError_eq_ok.1 hnormal⟩)

/-- An object is read field by field, and what is read satisfies the rule of the record. -/
theorem normaliseRecord_eq_ok {model : M} {w : Json}
    (h : normalise c (.object members) (.record model) = .ok w) :
    ∃ results, List.Forall₂ (fun field result =>
        field.normalise (memberReadings c members) = .ok result) (c.fields model) results ∧
      c.rule model (results.filterMap id) = none ∧ w = .object (results.filterMap id) := by
  rw [normalise, normaliseRecord] at h
  obtain ⟨results, hresults, h⟩ := bind_eq_ok.1 h
  refine ⟨results, forall₂_of_map_eq (gather_eq_ok hresults), ?_⟩
  dsimp only at h
  split at h
  · cases h
  · cases h
    exact ⟨‹_›, rfl⟩

/-! ## Values -/

/-- What a field is read as, when the values of all members are read as normal values. -/
theorem FieldRule.normalise_spec
    (hfilled : ∀ value, field.absence = .filled value →
      Normal c value field.shape ∧ OfShape c field.shape value)
    (hmembers : ∀ m ∈ members, ∀ shape w, Schema.normalise c m.2 shape = .ok w →
      Normal c w shape ∧ OfShape c shape w)
    (h : field.normalise (memberReadings c members) = .ok result) :
    (result = none ∧ field.absence = .dropped) ∨
    ∃ value, result = some (field.key, value) ∧ Normal c value field.shape ∧
      OfShape c field.shape value := by
  rcases FieldRule.normalise_cases h with hdropped | ⟨value, hresult, habsence⟩ |
    ⟨m, hm, normal, hresult, hnormal⟩
  · exact .inl hdropped
  · exact .inr ⟨value, hresult, hfilled value habsence⟩
  · exact .inr ⟨normal, hresult, hmembers m hm _ _ hnormal⟩

/-- What is read of the fields of a record conforms to them, and belongs to declared fields. -/
theorem conforms_of_forall₂ {fields : List (FieldRule M)} {all : List (String × Reading M)}
    {results : List (Option (String × Json))}
    (h : List.Forall₂ (fun field result => field.normalise all = .ok result) fields results)
    (hspec : ∀ field ∈ fields, ∀ result, field.normalise all = .ok result →
      (result = none ∧ field.absence = .dropped) ∨
      ∃ value, result = some (field.key, value) ∧ Normal c value field.shape ∧
        OfShape c field.shape value) :
    Conforms c fields (results.filterMap id) ∧ ∀ m ∈ results.filterMap id,
      ∃ field ∈ fields, m.1 = field.key ∧ OfShape c field.shape m.2 := by
  induction h with
  | nil => exact ⟨.nil, by simp⟩
  | @cons field result fields results hresult _ ih =>
    rw [List.forall_mem_cons] at hspec
    obtain ⟨hconforms, hdeclared⟩ := ih hspec.2
    have hrest : ∀ m ∈ results.filterMap id,
        ∃ other ∈ field :: fields, m.1 = other.key ∧ OfShape c other.shape m.2 := by
      intro m hm
      obtain ⟨other, hother, hshape⟩ := hdeclared m hm
      exact ⟨other, List.mem_cons_of_mem _ hother, hshape⟩
    rcases hspec.1 result hresult with ⟨rfl, habsence⟩ | ⟨value, rfl, hnormal, hshape⟩
    · exact ⟨.dropped habsence hconforms, hrest⟩
    · refine ⟨.given hnormal hnormal.ne_null hconforms, ?_⟩
      exact List.forall_mem_cons.2 ⟨⟨field, List.mem_cons_self, rfl, hshape⟩, hrest⟩

/-- A value is read part by part when it is a container of the shape's kind, and else by itself. -/
theorem normalise_cases (c : Catalog M) (v : Json) (shape : Shape M) :
    (∃ items item, v = .array items ∧ shape = .list item) ∨
    (∃ members model, v = .object members ∧ shape = .record model) ∨
    (∃ members, v = .object members ∧ shape = .textMap) ∨
    ∃ scalar, normalise c v shape = normaliseScalar c.name scalar shape := by
  cases v with
  | array items =>
    cases shape with
    | list item => exact .inl ⟨items, item, rfl, rfl⟩
    | _ => exact .inr (.inr (.inr ⟨.array [], by simp [normalise]⟩))
  | object members =>
    cases shape with
    | record model => exact .inr (.inl ⟨members, model, rfl, rfl⟩)
    | textMap => exact .inr (.inr (.inl ⟨members, rfl, rfl⟩))
    | _ => exact .inr (.inr (.inr ⟨.object [], by simp [normalise]⟩))
  | _ => exact .inr (.inr (.inr ⟨_, by rw [normalise]⟩))

/-- Items are read one by one. -/
theorem normalise_list_eq_ok {items : List Json} {shape : Shape M} {w : Json}
    (h : normalise c (.array items) (.list shape) = .ok w) :
    ∃ values, w = .array values ∧
      items.map (fun item => normalise c item shape) = values.map .ok := by
  rw [normalise, readings_eq_map, List.map_map] at h
  obtain ⟨values, hvalues, rfl⟩ := map_eq_ok.1 h
  exact ⟨values, rfl, indexed_eq_map_ok (gather_eq_ok hvalues)⟩

/-- Every item that is read is what one of the given items is read as. -/
theorem exists_item_of_mem {items values : List Json} {shape : Shape M}
    (h : items.map (fun item => normalise c item shape) = values.map .ok) {value : Json}
    (hvalue : value ∈ values) : ∃ item ∈ items, normalise c item shape = .ok value := by
  have hmem : .ok value ∈ items.map fun item => normalise c item shape :=
    h ▸ List.mem_map_of_mem hvalue
  exact List.mem_map.1 hmem

/-- Reading a value gives a normal value of the shape. -/
theorem normalise_spec (hc : c.Sound) {v : Json} {shape : Shape M} {w : Json}
    (h : normalise c v shape = .ok w) : Normal c w shape ∧ OfShape c shape w := by
  induction v using Json.induct generalizing shape w with
  | step v ih =>
    rcases normalise_cases c v shape with ⟨items, item, rfl, rfl⟩ | ⟨members, model, rfl, rfl⟩ |
      ⟨members, rfl, rfl⟩ | ⟨scalar, hscalar⟩
    · obtain ⟨values, rfl, hvalues⟩ := normalise_list_eq_ok h
      have hall : ∀ value ∈ values, Normal c value item ∧ OfShape c item value := by
        intro value hvalue
        obtain ⟨v, hv, hread⟩ := exists_item_of_mem hvalues hvalue
        exact ih v hv hread
      exact ⟨normal_list fun value hvalue => (hall value hvalue).1,
        .list fun value hvalue => (hall value hvalue).2⟩
    · obtain ⟨results, hresults, hrule, rfl⟩ := normaliseRecord_eq_ok h
      obtain ⟨hconforms, hdeclared⟩ := conforms_of_forall₂ hresults fun field hfield result =>
        FieldRule.normalise_spec (hc.filled model field hfield) fun m hm shape w =>
          ih m.2 (List.mem_map_of_mem hm)
      refine ⟨hconforms.normal (hc.keys model) hrule, .record ?_ ?_⟩
      · intro m hm
        obtain ⟨field, hfield, hkey, -⟩ := hdeclared m hm
        exact ⟨field, hfield, hkey⟩
      · intro m hm field hfield hkey
        obtain ⟨other, hother, hkey', hshape⟩ := hdeclared m hm
        rw [(hc.keys model).eq_of_key hfield hother (hkey.symm.trans hkey')]
        exact hshape
    · exact normaliseMap_spec (by rwa [normalise] at h)
    · exact normaliseScalar_spec (hscalar ▸ h)

/-! ## What a field is read as -/

theorem FieldRule.key_of_normalise {m : String × Json}
    (h : field.normalise (memberReadings c members) = .ok (some m)) : m.1 = field.key := by
  rcases FieldRule.normalise_cases h with ⟨hnone, -⟩ | ⟨value, hsome, -⟩ | ⟨-, -, normal, hsome, -⟩
  · cases hnone
  · cases hsome
    rfl
  · cases hsome
    rfl

/-- Every member that is read is what some field is read as. -/
theorem exists_field_of_mem {fields : List (FieldRule M)} {results : List (Option (String × Json))}
    (h : List.Forall₂ (fun field result =>
      field.normalise (memberReadings c members) = .ok result) fields results) :
    ∀ m ∈ results.filterMap id,
      ∃ field ∈ fields, field.normalise (memberReadings c members) = .ok (some m) := by
  induction h with
  | nil => simp
  | @cons field result fields results hresult _ ih =>
    intro m hm
    rcases result with _ | first
    · obtain ⟨other, hother, hread⟩ := ih m hm
      exact ⟨other, List.mem_cons_of_mem _ hother, hread⟩
    · rcases List.mem_cons.1 hm with rfl | hm
      · exact ⟨field, List.mem_cons_self, hresult⟩
      · obtain ⟨other, hother, hread⟩ := ih m hm
        exact ⟨other, List.mem_cons_of_mem _ hother, hread⟩

/-- Under the key of a field stands what is read of that field. -/
theorem lookup_results {fields : List (FieldRule M)} {results : List (Option (String × Json))}
    (h : List.Forall₂ (fun field result =>
      field.normalise (memberReadings c members) = .ok result) fields results)
    (hkeys : DistinctKeys fields) (hfield : field ∈ fields) :
    ∃ result, field.normalise (memberReadings c members) = .ok result ∧
      (results.filterMap id).lookup field.key = result.map (·.2) := by
  induction h with
  | nil => cases hfield
  | @cons first result fields results hresult hrest ih =>
    have hne : ∀ other ∈ fields, first.key ≠ other.key := fun other hother =>
      hkeys.cons.2 _ List.mem_cons_self _ (List.mem_flatMap.2 ⟨other, hother, List.mem_cons_self⟩)
    rcases List.mem_cons.1 hfield with rfl | hfield
    · refine ⟨result, hresult, ?_⟩
      rcases result with _ | ⟨key, value⟩
      · refine List.lookup_eq_none_iff.2 fun m hm => ?_
        obtain ⟨other, hother, hread⟩ := exists_field_of_mem hrest m hm
        exact bne_iff_ne.2 (FieldRule.key_of_normalise hread ▸ hne other hother)
      · obtain rfl : key = field.key := FieldRule.key_of_normalise hresult
        exact List.lookup_cons_self
    · obtain ⟨found, hfound, hlookup⟩ := ih hkeys.cons.1 hfield
      refine ⟨found, hfound, ?_⟩
      rcases result with _ | ⟨key, value⟩
      · exact hlookup
      · obtain rfl : key = first.key := FieldRule.key_of_normalise hresult
        have hkey : (field.key == first.key) = false :=
          beq_eq_false_iff_ne.2 (hne field hfield).symm
        change List.lookup field.key ((first.key, value) :: results.filterMap id) = _
        rw [List.lookup_cons, hkey]
        exact hlookup

variable {model : M} {w : Json}

/-- A value that is given for a field is read by the shape of the field. -/
theorem get?_of_lookup (hkeys : DistinctKeys (c.fields model))
    (h : normalise c (.object members) (.record model) = .ok w) (hfield : field ∈ c.fields model)
    {value : Json} (hvalue : members.lookup field.key = some value) (hnull : value ≠ .null) :
    ∃ normal, normalise c value field.shape = .ok normal ∧ w.get? field.key = some normal := by
  obtain ⟨results, hresults, -, rfl⟩ := normaliseRecord_eq_ok h
  obtain ⟨result, hresult, hlookup⟩ := lookup_results hresults hkeys hfield
  have hreading : (memberReadings c members).lookup field.key = some (value, normalise c value) := by
    rw [lookup_memberReadings, hvalue]
    rfl
  rw [FieldRule.normalise_of_lookup hreading hnull] at hresult
  obtain ⟨normal, hnormal, rfl⟩ := map_eq_ok.1 hresult
  exact ⟨normal, mapError_eq_ok.1 hnormal, hlookup⟩

/-- A field that may be missing is dropped unless a value is given for it. -/
theorem get?_eq_none (hkeys : DistinctKeys (c.fields model))
    (h : normalise c (.object members) (.record model) = .ok w) (hfield : field ∈ c.fields model)
    (habsence : field.absence = .dropped) (hother : field.otherKeys = [])
    (hvalue : ∀ value, members.lookup field.key = some value → value = .null) :
    w.get? field.key = none := by
  obtain ⟨results, hresults, -, rfl⟩ := normaliseRecord_eq_ok h
  obtain ⟨result, hresult, hlookup⟩ := lookup_results hresults hkeys hfield
  have hreading := lookup_memberReadings (c := c) members field.key
  rcases hmember : members.lookup field.key with _ | value <;> rw [hmember] at hreading
  · have habsent : ∀ key ∈ field.keys, (memberReadings c members).lookup key = none := by
      simpa [FieldRule.keys, hother] using hreading
    rw [FieldRule.normalise_of_absent habsent habsence] at hresult
    cases hresult
    exact hlookup
  · obtain rfl := hvalue value hmember
    rw [FieldRule.normalise_of_null hreading habsence] at hresult
    cases hresult
    exact hlookup

/-- Only objects are read as records. -/
theorem exists_members_of_record {v : Json} (h : normalise c v (.record model) = .ok w) :
    ∃ members, v = .object members := by
  rcases normalise_cases c v (.record model) with ⟨_, _, -, hshape⟩ | ⟨members, _, hv, -⟩ |
    ⟨_, -, hshape⟩ | ⟨scalar, hscalar⟩
  · cases hshape
  · exact ⟨members, hv⟩
  · cases hshape
  · rw [hscalar] at h
    cases h

end Schema

end Courier
