import Courier.Schema.Basic
import Mathlib.Data.List.Basic
import Mathlib.Tactic.Common

/-!
# Normal values

A value is normal under a shape when reading it by the shape gives the value back (`Normal`).
`Conforms` says what members an object needs for that: those of the declared fields, in their order,
each normal under the shape of its field, and none missing but those that may be dropped.

`Conforms.normal` is the main statement: an object with such members is normal, provided that no key
stands for two fields (`DistinctKeys`) and that the rule of the record is satisfied.  It is a case of
`Reads.normalise_eq`, which says what any object is read as whose members are given in the order of
the fields, with nulls for those that may be dropped.  Nothing here depends on what the records of the
catalog are.
-/

namespace Courier.Schema

variable {M : Type} {c : Catalog M}

/-- Reading a value by a shape leaves it as it is. -/
def Normal (c : Catalog M) (value : Json) (shape : Shape M) : Prop :=
  normalise c value shape = .ok value

/-! ## Scalars and lists -/

/-- What is neither a list nor an object is read as a scalar. -/
theorem normalise_of_flat (value : Json) (shape : Shape M)
    (harray : ∀ items, value ≠ .array items) (hobject : ∀ members, value ≠ .object members) :
    normalise c value shape = normaliseScalar c.name value shape := by
  cases value with
  | array items => exact absurd rfl (harray items)
  | object members => exact absurd rfl (hobject members)
  | _ => rw [normalise]

theorem readings_eq_map (c : Catalog M) (items : List Json) :
    readings c items = items.map fun item => (item, normalise c item) := by
  induction items with
  | nil => simp [readings]
  | cons item items ih => simp [readings, ih]

theorem memberReadings_eq_map (c : Catalog M) (members : List (String × Json)) :
    memberReadings c members = members.map fun (key, value) => (key, value, normalise c value) := by
  induction members with
  | nil => simp [memberReadings]
  | cons member members ih => simp [memberReadings, ih]

theorem normal_text (s : String) : Normal c (.string s) .text := by
  rw [Normal, normalise_of_flat (.string s) _ (by simp) (by simp)]
  rfl

theorem normal_nonemptyText {s : String} (h : s ≠ "") : Normal c (.string s) .nonemptyText := by
  rw [Normal, normalise_of_flat (.string s) _ (by simp) (by simp)]
  simp [normaliseScalar, asText, bind, Except.bind, h]

theorem normal_flag (b : Bool) : Normal c (.bool b) .flag := by
  rw [Normal, normalise_of_flat (.bool b) _ (by simp) (by simp)]
  rfl

theorem normal_integer (n : Int) : Normal c (.int n) .integer := by
  rw [Normal, normalise_of_flat (.int n) _ (by simp) (by simp)]
  rfl

theorem normal_oneOf {s : String} {words : List String} (h : s ∈ words) :
    Normal c (.string s) (.oneOf words) := by
  rw [Normal, normalise_of_flat (.string s) _ (by simp) (by simp)]
  simp [normaliseScalar, asWord, Except.map, h]

theorem gather_map_ok {α : Type} (values : List α) :
    gather (values.map Except.ok) = .ok values := by
  induction values with
  | nil => rfl
  | cons a values ih => simp [gather, ih, Except.map]

/-- One issue is enough. -/
theorem exists_gather_eq_error {α : Type} {results : List (Checked α)} {issues : List Issue}
    (h : .error issues ∈ results) : ∃ more, gather results = .error more := by
  induction results with
  | nil => cases h
  | cons result rest ih =>
    rcases result with first | a
    · rw [gather]
      split
      · exact ⟨_, rfl⟩
      · exact ⟨_, rfl⟩
    · obtain ⟨more, hmore⟩ := ih (by simpa using h)
      rw [gather, hmore]
      exact ⟨more, rfl⟩

theorem indexed_map_ok {α : Type} (first : Nat) (values : List α) :
    indexed first (values.map Except.ok) = values.map Except.ok := by
  induction values generalizing first with
  | nil => rfl
  | cons a values ih => simp [indexed, ih, under, Except.mapError]

/-- A list of normal items is normal. -/
theorem normal_list {items : List Json} {shape : Shape M}
    (h : ∀ item ∈ items, Normal c item shape) : Normal c (.array items) (.list shape) := by
  have hitems : (items.map fun item => normalise c item shape) = items.map Except.ok :=
    List.map_congr_left h
  rw [Normal, normalise, readings_eq_map, List.map_map]
  change (gather (indexed 0 (items.map fun item => normalise c item shape))).map Json.array = _
  rw [hitems, indexed_map_ok, gather_map_ok]
  rfl

theorem normal_strings (texts : List String) : Normal c (Json.strings texts) (.list .text) := by
  refine normal_list fun item hitem => ?_
  obtain ⟨s, -, rfl⟩ := List.mem_map.1 hitem
  exact normal_text s

/-- A map to texts is normal. -/
theorem normal_texts {members : List (String × Json)} (h : ∀ m ∈ members, ∃ s, m.2 = .string s) :
    Normal c (.object members) .textMap := by
  have hmembers : (members.map fun (key, value) =>
      under key ((asText value).map fun s => (key, Json.string s))) = members.map .ok := by
    refine List.map_congr_left fun m hm => ?_
    obtain ⟨s, hs⟩ := h m hm
    obtain ⟨key, value⟩ := m
    cases hs
    rfl
  rw [Normal, normalise, normaliseMap, hmembers, gather_map_ok]
  rfl

/-! ## Records -/

/-- All keys under which a field is read. -/
def FieldRule.keys (field : FieldRule M) : List String := field.key :: field.otherKeys

/-- No key stands for two fields of a record. -/
def DistinctKeys (fields : List (FieldRule M)) : Prop := (fields.flatMap FieldRule.keys).Nodup

instance (fields : List (FieldRule M)) : Decidable (DistinctKeys fields) :=
  inferInstanceAs (Decidable (fields.flatMap FieldRule.keys).Nodup)

/-- The members of an object in normal form, by the fields of its record. -/
inductive Conforms (c : Catalog M) : List (FieldRule M) → List (String × Json) → Prop
  | nil : Conforms c [] []
  | given {field : FieldRule M} {fields : List (FieldRule M)} {value : Json}
      {members : List (String × Json)} (normal : Normal c value field.shape)
      (ne_null : value ≠ .null) (rest : Conforms c fields members) :
      Conforms c (field :: fields) ((field.key, value) :: members)
  | dropped {field : FieldRule M} {fields : List (FieldRule M)} {members : List (String × Json)}
      (absence : field.absence = .dropped) (rest : Conforms c fields members) :
      Conforms c (field :: fields) members

variable {fields : List (FieldRule M)} {members : List (String × Json)}

/-- A member that need not be there. -/
theorem Conforms.member? (field : FieldRule M) {value : Option Json}
    (absence : field.absence = .dropped)
    (normal : ∀ v ∈ value, Normal c v field.shape ∧ v ≠ .null) (rest : Conforms c fields members) :
    Conforms c (field :: fields) (Json.member? field.key value ++ members) := by
  rcases value with _ | v
  · exact .dropped absence rest
  · exact .given (normal v rfl).1 (normal v rfl).2 rest

/-! ## Reading the members of an object -/

/-- The members of an object, by the fields of its record, with the members that are read from them.
A field that may be dropped is absent or null. -/
inductive Reads (c : Catalog M) :
    List (FieldRule M) → List (String × Json) → List (String × Json) → Prop
  | nil : Reads c [] [] []
  | given {field : FieldRule M} {fields : List (FieldRule M)} {value normal : Json}
      {members read : List (String × Json)} (reads : normalise c value field.shape = .ok normal)
      (ne_null : value ≠ .null) (rest : Reads c fields members read) :
      Reads c (field :: fields) ((field.key, value) :: members) ((field.key, normal) :: read)
  | null {field : FieldRule M} {fields : List (FieldRule M)} {members read : List (String × Json)}
      (absence : field.absence = .dropped) (rest : Reads c fields members read) :
      Reads c (field :: fields) ((field.key, .null) :: members) read
  | absent {field : FieldRule M} {fields : List (FieldRule M)} {members read : List (String × Json)}
      (absence : field.absence = .dropped) (rest : Reads c fields members read) :
      Reads c (field :: fields) members read

/-- Members in normal form are read as they are. -/
theorem Conforms.reads (h : Conforms c fields members) : Reads c fields members members := by
  induction h with
  | nil => exact .nil
  | given normal ne_null _ ih => exact .given normal ne_null ih
  | dropped absence _ ih => exact .absent absence ih

variable {read : List (String × Json)}

theorem Reads.mem_keys (h : Reads c fields members read) {key : String} {value : Json}
    (hmem : (key, value) ∈ members) : key ∈ fields.flatMap FieldRule.keys := by
  have hfirst {field : FieldRule M} {fields : List (FieldRule M)} {v : Json}
      {members : List (String × Json)} (hmem : (key, value) ∈ (field.key, v) :: members)
      (ih : (key, value) ∈ members → key ∈ fields.flatMap FieldRule.keys) :
      key ∈ field.keys ++ fields.flatMap FieldRule.keys := by
    rw [List.mem_append]
    rcases List.mem_cons.1 hmem with heq | hmem
    · cases heq
      exact .inl List.mem_cons_self
    · exact .inr (ih hmem)
  induction h with
  | nil => simp at hmem
  | given _ _ _ ih => exact hfirst hmem ih
  | null _ _ ih => exact hfirst hmem ih
  | absent _ _ ih => exact List.mem_append_right _ (ih hmem)

/-- A key leads to the reading of the value it leads to. -/
theorem lookup_memberReadings (members : List (String × Json)) (key : String) :
    (memberReadings c members).lookup key =
      (members.lookup key).map fun value => (value, normalise c value) := by
  rw [memberReadings_eq_map]
  induction members with
  | nil => rfl
  | cons member members ih =>
    rw [List.map_cons, List.lookup_cons, List.lookup_cons, ih]
    split <;> rfl

theorem lookup_memberReadings_eq_none {key : String}
    (h : ∀ value, (key, value) ∉ members) : (memberReadings c members).lookup key = none := by
  rw [lookup_memberReadings, Option.map_eq_none_iff, List.lookup_eq_none_iff]
  intro m hm
  rw [bne_iff_ne]
  rintro rfl
  exact h m.2 hm

/-- A field whose key is given first is read under that key. -/
theorem FieldRule.find?_of_lookup {field : FieldRule M} {all : List (String × Reading M)}
    {reading : Reading M} (h : all.lookup field.key = some reading) :
    field.find? all = some (field.key, reading) := by
  simp [FieldRule.find?, h]

theorem FieldRule.find?_eq_none {field : FieldRule M} {all : List (String × Reading M)}
    (h : ∀ key ∈ field.keys, all.lookup key = none) : field.find? all = none := by
  refine List.findSome?_eq_none_iff.2 fun key hkey => ?_
  rw [h key hkey, Option.map_none]

theorem FieldRule.normalise_of_lookup {field : FieldRule M} {all : List (String × Reading M)}
    {value : Json} (h : all.lookup field.key = some (value, Schema.normalise c value))
    (hnull : value ≠ .null) :
    field.normalise all = (under field.key (Schema.normalise c value field.shape)).map
      fun normal => some (field.key, normal) := by
  rw [FieldRule.normalise, FieldRule.find?_of_lookup h]
  split
  · contradiction
  · rename_i heq
    cases heq
    split
    · exact absurd rfl hnull
    · rfl

theorem FieldRule.normalise_of_null {field : FieldRule M} {all : List (String × Reading M)}
    (h : all.lookup field.key = some (.null, Schema.normalise c .null))
    (habsence : field.absence = .dropped) : field.normalise all = .ok none := by
  rw [FieldRule.normalise, FieldRule.find?_of_lookup h]
  simp only [habsence]

theorem FieldRule.normalise_of_absent {field : FieldRule M} {all : List (String × Reading M)}
    (h : ∀ key ∈ field.keys, all.lookup key = none) (habsence : field.absence = .dropped) :
    field.normalise all = .ok none := by
  rw [FieldRule.normalise, FieldRule.find?_eq_none h]
  simp only [habsence]

/-- No key of the first field is one of the others. -/
theorem DistinctKeys.cons {field : FieldRule M} (h : DistinctKeys (field :: fields)) :
    DistinctKeys fields ∧
      ∀ key ∈ field.keys, ∀ other ∈ fields.flatMap FieldRule.keys, key ≠ other := by
  rw [DistinctKeys, List.flatMap_cons, List.nodup_append] at h
  exact h.2

/-- What the keys of the other fields lead to, once the first member is read. -/
theorem lookup_tail {field : FieldRule M} {value : Json} {all : List (String × Reading M)}
    (hkeys : DistinctKeys (field :: fields))
    (hall : ∀ key ∈ (field :: fields).flatMap FieldRule.keys,
      all.lookup key = (memberReadings c ((field.key, value) :: members)).lookup key) :
    ∀ key ∈ fields.flatMap FieldRule.keys,
      all.lookup key = (memberReadings c members).lookup key := by
  intro key hkey
  have hne : (key == field.key) = false :=
    beq_eq_false_iff_ne.2 fun heq => hkeys.cons.2 _ List.mem_cons_self _ hkey heq.symm
  rw [hall key (List.mem_append_right _ hkey), lookup_memberReadings, lookup_memberReadings,
    List.lookup_cons, hne]

theorem lookup_head {field : FieldRule M} {value : Json} {all : List (String × Reading M)}
    (hall : ∀ key ∈ (field :: fields).flatMap FieldRule.keys,
      all.lookup key = (memberReadings c ((field.key, value) :: members)).lookup key) :
    all.lookup field.key = some (value, normalise c value) := by
  rw [hall field.key (List.mem_append_left _ List.mem_cons_self), lookup_memberReadings,
    List.lookup_cons_self]
  rfl

/-- The fields are read one after the other.  What has been read before them does not matter, as
long as their own keys lead to the members that are left. -/
theorem Reads.gather_fields (h : Reads c fields members read) (hkeys : DistinctKeys fields)
    {all : List (String × Reading M)}
    (hall : ∀ key ∈ fields.flatMap FieldRule.keys,
      all.lookup key = (memberReadings c members).lookup key) :
    ∃ present, gather (fields.map (·.normalise all)) = .ok present ∧
      present.filterMap id = read := by
  induction h with
  | nil => exact ⟨[], rfl, rfl⟩
  | @given field fields value normal members read reads ne_null rest ih =>
    obtain ⟨present, hpresent, hread⟩ := ih hkeys.cons.1 (lookup_tail hkeys hall)
    refine ⟨some (field.key, normal) :: present, ?_, by rw [← hread]; rfl⟩
    rw [List.map_cons, FieldRule.normalise_of_lookup (lookup_head hall) ne_null, reads, under,
      Except.mapError, Except.map, gather, hpresent]
    rfl
  | @null field fields members read absence rest ih =>
    obtain ⟨present, hpresent, hread⟩ := ih hkeys.cons.1 (lookup_tail hkeys hall)
    refine ⟨none :: present, ?_, hread⟩
    rw [List.map_cons, FieldRule.normalise_of_null (lookup_head hall) absence, gather, hpresent]
    rfl
  | @absent field fields members read absence rest ih =>
    have hnone : ∀ key ∈ field.keys, all.lookup key = none := fun key hkey => by
      rw [hall key (List.mem_append_left _ hkey)]
      exact lookup_memberReadings_eq_none fun value hmem =>
        hkeys.cons.2 key hkey key (rest.mem_keys hmem) rfl
    obtain ⟨present, hpresent, hread⟩ := ih hkeys.cons.1 fun key hkey =>
      hall key (List.mem_append_right _ hkey)
    refine ⟨none :: present, ?_, hread⟩
    rw [List.map_cons, FieldRule.normalise_of_absent hnone absence, gather, hpresent]
    rfl

/-- An object is read member by member. -/
theorem Reads.normalise_eq {model : M} (h : Reads c (c.fields model) members read)
    (hkeys : DistinctKeys (c.fields model)) (hrule : c.rule model read = none) :
    normalise c (.object members) (.record model) = .ok (.object read) := by
  obtain ⟨present, hpresent, hread⟩ := h.gather_fields hkeys fun _ _ => rfl
  simp only [normalise, normaliseRecord, hpresent, hread, hrule, bind, Except.bind]

/-- An object whose members conform to the fields of its record is normal. -/
theorem Conforms.normal {model : M} (h : Conforms c (c.fields model) members)
    (hkeys : DistinctKeys (c.fields model)) (hrule : c.rule model members = none) :
    Normal c (.object members) (.record model) :=
  h.reads.normalise_eq hkeys hrule

end Courier.Schema
