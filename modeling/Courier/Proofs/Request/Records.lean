import Courier.Proofs.Request.Slots
import Courier.Proofs.Schema.Normal
import Courier.Request.Schema
import Mathlib.Tactic.Common

/-!
# Checked records

Each part of a request is a record with a schema, and so is the request.  This module shows that the
parts that a document is read as fit their schemas, whatever stands in the document.

* `normalise_bodyJson` and its companions: what the record of a part is read as.  The inverse
  direction, `bodyOf_bodyNormal` and the like, gives the part back.
* `ofJson_toJson`: a request with an address is read from its own JSON form.
* `ofTextChecked` reads a document as `ofText` does, and checks every record on the way.  By
  `ofTextChecked_eq` no check ever fails, so that both read the same.
-/

namespace Courier.Request

open Schema (DistinctKeys FieldRule Reads normalise)

/-! ## Records that are read as they were written -/

theorem Model.distinctKeys (model : Model) : DistinctKeys (Model.catalog.fields model) := by
  cases model <;> decide

/-- An object is read as the record of a model. -/
theorem normalise_record {model : Model} {members read : List (String × Json)}
    (h : Reads Model.catalog model.fields members read) :
    normalise Model.catalog (.object members) (.record model) = .ok (.object read) :=
  h.normalise_eq model.distinctKeys rfl

theorem readAs_of_normalise {α : Type} {model : Model} {ofNormal : Json → α} {value normal : Json}
    {a : α} (h : normalise Model.catalog value (.record model) = .ok normal)
    (hof : ofNormal normal = a) : readAs model ofNormal value = .ok a := by
  rw [readAs, h, ← hof]
  rfl

theorem normal_pairJson (p : Pair) : Schema.Normal Model.catalog (pairJson p) (.record .pair) :=
  normalise_record <| .given (Schema.normal_text p.key) nofun <|
    .given (Schema.normal_text p.value) nofun <| .given (Schema.normal_flag p.enabled) nofun .nil

theorem pairOf_pairJson (p : Pair) : pairOf (pairJson p) = p := rfl

theorem normal_entryJson (e : FormEntry) :
    Schema.Normal Model.catalog (entryJson e) (.record .formEntry) := by
  have htype : e.type.name ∈ ["text", "file"] := by
    cases e.type <;> decide
  exact normalise_record <| .given (Schema.normal_text e.key) nofun <|
    .given (Schema.normal_text e.value) nofun <| .given (Schema.normal_oneOf htype) nofun <|
    .given (Schema.normal_flag e.enabled) nofun .nil

theorem entryOf_entryJson (e : FormEntry) : entryOf (entryJson e) = e := by
  rcases e with ⟨key, value, _ | _, enabled⟩ <;> rfl

/-- A list of records that are read one by one. -/
theorem normal_records {α : Type} {model : Model} {toJson : α → Json} (values : List α)
    (h : ∀ a, Schema.Normal Model.catalog (toJson a) (.record model)) :
    Schema.Normal Model.catalog (.array (values.map toJson)) (.list (.record model)) := by
  refine Schema.normal_list fun item hitem => ?_
  obtain ⟨a, -, rfl⟩ := List.mem_map.1 hitem
  exact h a

theorem map_ofNormal {α : Type} {ofNormal : Json → α} {toJson : α → Json}
    (h : ∀ a, ofNormal (toJson a) = a) (values : List α) :
    (values.map toJson).map ofNormal = values := by
  rw [List.map_map]
  exact (List.map_congr_left fun a _ => h a).trans (List.map_id values)

/-- What the record of a body is read as. -/
def bodyNormal (b : Body) : Json :=
  .object ([("mode", .string b.mode.name), ("content", .string b.content)] ++
    Json.member? "form_data" (b.form.map fun entries => .array (entries.map entryJson)))

theorem normalise_bodyJson (b : Body) :
    normalise Model.catalog (bodyJson b) (.record .body) = .ok (bodyNormal b) := by
  have hmode : b.mode.name ∈ Model.bodyModes := by
    cases b.mode <;> decide
  refine normalise_record <| .given (Schema.normal_oneOf hmode) nofun <|
    .given (Schema.normal_text b.content) nofun ?_
  rcases b.form with _ | entries
  · exact .null rfl .nil
  · exact .given (normal_records entries normal_entryJson) nofun .nil

theorem bodyOf_bodyNormal (b : Body) : bodyOf (bodyNormal b) = b := by
  have hmode : (BodyMode.ofName? (textAt "mode" (bodyNormal b))).getD .none = b.mode := by
    rw [show textAt "mode" (bodyNormal b) = b.mode.name from rfl, BodyMode.ofName?_name]
    rfl
  rcases b with ⟨mode, content, _ | entries⟩
  · rw [bodyOf, hmode]
    rfl
  · have hentries : (entries.map entryJson).map entryOf = entries :=
      map_ofNormal entryOf_entryJson entries
    rw [bodyOf, hmode]
    exact congrArg (fun form => (⟨mode, content, some form⟩ : Body)) hentries

/-- A text under its key. -/
def textMember (member : String × String) : String × Json := (member.1, .string member.2)

theorem textMapJson_eq (texts : List (String × String)) :
    textMapJson texts = .object (texts.map textMember) := rfl

theorem normal_textMap (texts : List (String × String)) :
    Schema.Normal Model.catalog (textMapJson texts) .textMap := by
  rw [textMapJson_eq]
  refine Schema.normal_texts fun m hm => ?_
  obtain ⟨⟨key, s⟩, -, rfl⟩ := List.mem_map.1 hm
  exact ⟨s, rfl⟩

theorem normal_authJson (a : Auth) : Schema.Normal Model.catalog (authJson a) (.record .auth) := by
  have htype : a.type.name ∈ Model.authTypes := by
    cases a.type <;> decide
  exact normalise_record <| .given (Schema.normal_oneOf htype) nofun <|
    .given (normal_textMap a.credentials) nofun .nil

theorem authOf_authJson (a : Auth) : authOf (authJson a) = a := by
  have htype : (AuthType.ofName? (textAt "type" (authJson a))).getD .none = a.type := by
    rw [show textAt "type" (authJson a) = a.type.name from rfl, AuthType.ofName?_name]
    rfl
  have hcredentials : (a.credentials.map textMember).map (fun m => (m.1, textOf m.2)) =
      a.credentials := by
    rw [List.map_map]
    exact List.map_id a.credentials
  rw [authOf, htype]
  exact congrArg (Auth.mk a.type) hcredentials

/-- What the record of the metadata is read as. -/
def metadataNormal (m : Metadata) : Json :=
  .object ([("name", .string m.name), ("type", .string m.type)] ++
    Json.member? "seq" (m.seq.map .int))

theorem normalise_metadataJson (m : Metadata) :
    normalise Model.catalog (metadataJson m) (.record .metadata) = .ok (metadataNormal m) := by
  refine normalise_record <| .given (Schema.normal_text m.name) nofun <|
    .given (Schema.normal_text m.type) nofun ?_
  rcases m.seq with _ | n
  · exact .null rfl .nil
  · exact .given rfl nofun .nil

theorem metadataOf_metadataNormal (m : Metadata) : metadataOf (metadataNormal m) = m := by
  rcases m with ⟨name, type, _ | n⟩ <;> rfl

/-! ## The record of a request -/

/-- A field that may be null. -/
theorem reads_optional {α : Type} {key : String} {shape : Schema.Shape Model}
    {fields : List (FieldRule Model)} {members read : List (String × Json)}
    {toJson normal : α → Json}
    (h : ∀ a, normalise Model.catalog (toJson a) shape = .ok (normal a) ∧ toJson a ≠ .null)
    (value : Option α) (rest : Reads Model.catalog fields members read) :
    Reads Model.catalog (Model.optional key shape :: fields)
      ((key, (value.map toJson).getD .null) :: members)
      (Json.member? key (value.map normal) ++ read) := by
  rcases value with _ | a
  · exact .null rfl rest
  · exact .given (h a).1 (h a).2 rest

theorem optionalText_eq (text : Option String) :
    optionalText text = (text.map .string).getD .null := by
  cases text <;> rfl

theorem reads_pairs {key : String} {fields : List (FieldRule Model)}
    {members read : List (String × Json)} (pairs : List Pair)
    (rest : Reads Model.catalog fields members read) :
    Reads Model.catalog (Model.pairs key :: fields)
      ((key, .array (pairs.map pairJson)) :: members)
      ((key, .array (pairs.map pairJson)) :: read) :=
  .given (normal_records pairs normal_pairJson) nofun rest

theorem lookup_member?_append (key k : String) (value : Option Json)
    (rest : List (String × Json)) :
    (Json.member? k value ++ rest).lookup key =
      if key = k then value.or (rest.lookup key) else rest.lookup key := by
  rcases value with _ | v
  · simp [Json.member?]
  · rw [Json.member?, List.singleton_append, List.lookup_cons]
    by_cases h : key = k
    · simp [h]
    · rw [if_neg h, beq_eq_false_iff_ne.2 h]

/-- What the record of a request is read as. -/
def normalForm (r : Request) : Json :=
  .object ([("meta", metadataNormal r.metadata), ("method", .string r.method.name),
    ("url", .string r.url), ("headers", .array (r.headers.map pairJson)),
    ("query_params", .array (r.queryParams.map pairJson)),
    ("path_params", .array (r.pathParams.map pairJson))] ++
    (Json.member? "body" (r.body.map bodyNormal) ++
    (Json.member? "auth" (r.auth.map authJson) ++
    (Json.member? "pre_request_script" (r.preScript.map .string) ++
    (Json.member? "test_script" (r.testScript.map .string) ++
    (Json.member? "docs" (r.docs.map .string) ++ []))))))

theorem normalise_toJson {r : Request} (h : r.url ≠ "") :
    normalise Model.catalog r.toJson (.record .request) = .ok r.normalForm := by
  have hmethod : r.method.name ∈ Model.methods := by
    cases r.method <;> decide
  have htext : ∀ s, normalise Model.catalog (.string s) .text = .ok (.string s) ∧
      Json.string s ≠ .null := fun s => ⟨Schema.normal_text s, nofun⟩
  simp only [toJson, optionalText_eq]
  exact normalise_record <| .given (normalise_metadataJson r.metadata) nofun <|
    .given (Schema.normal_oneOf hmethod) nofun <| .given (Schema.normal_nonemptyText h) nofun <|
    reads_pairs r.headers <| reads_pairs r.queryParams <| reads_pairs r.pathParams <|
    reads_optional (fun b => ⟨normalise_bodyJson b, nofun⟩) r.body <|
    reads_optional (fun a => ⟨normal_authJson a, nofun⟩) r.auth <|
    reads_optional htext r.preScript <| reads_optional htext r.testScript <|
    reads_optional htext r.docs .nil

theorem ofNormal_normalForm (r : Request) : ofNormal r.normalForm = r := by
  have hmethod : (Method.ofName? (textAt "method" r.normalForm)).getD .get = r.method := by
    rw [show textAt "method" r.normalForm = r.method.name from rfl, Method.ofName?_name]
    rfl
  have hmetadata : metadataOf ((r.normalForm.get? "meta").getD .null) = r.metadata :=
    metadataOf_metadataNormal r.metadata
  have hpairs : ∀ (key : String) (pairs : List Pair),
      itemsAt key r.normalForm = pairs.map pairJson →
        (itemsAt key r.normalForm).map pairOf = pairs := by
    intro key pairs hitems
    rw [hitems, map_ofNormal pairOf_pairJson]
  have hget : r.normalForm.get? "body" = r.body.map bodyNormal ∧
      r.normalForm.get? "auth" = r.auth.map authJson ∧
      r.normalForm.get? "pre_request_script" = r.preScript.map .string ∧
      r.normalForm.get? "test_script" = r.testScript.map .string ∧
      r.normalForm.get? "docs" = r.docs.map .string := by
    simp [normalForm, Json.get?, List.lookup_cons, lookup_member?_append, -List.append_nil]
  have hoption : ∀ {α : Type} {ofNormal : Json → α} {toNormal : α → Json},
      (∀ a, ofNormal (toNormal a) = a) → ∀ value : Option α,
        (value.map toNormal).map ofNormal = value := by
    intro α ofNormal toNormal hof value
    rw [Option.map_map]
    exact (Option.map_congr fun a _ => hof a).trans (congrFun Option.map_id value)
  obtain ⟨hbody, hauth, hpre, htest, hdocs⟩ := hget
  rw [ofNormal, hmetadata, hmethod, hpairs "headers" r.headers rfl,
    hpairs "query_params" r.queryParams rfl, hpairs "path_params" r.pathParams rfl, hbody, hauth,
    hpre, htest, hdocs, hoption bodyOf_bodyNormal, hoption authOf_authJson,
    hoption (fun _ => rfl), hoption (fun _ => rfl), hoption (fun _ => rfl)]
  rfl

/-- A request is read from its JSON form, if its address is not empty. -/
theorem ofJson_toJson {r : Request} (h : r.url ≠ "") : ofJson r.toJson = .ok r :=
  readAs_of_normalise (normalise_toJson h) (ofNormal_normalForm r)

/-! ## Reading with every record checked -/

/-- What ends a reading in which every record is checked: a construct that is missing, or a record
that does not fit its schema. -/
inductive CheckedFault where
  | lacking (fault : RequestFault)
  | rejected (model : Model) (issues : List Schema.Issue)
  deriving DecidableEq, Repr

/-- The construct that a fault names.  Only the record of a whole request counts as one. -/
def CheckedFault.construct? : CheckedFault → Option String
  | .lacking fault => some fault.construct
  | .rejected .request _ => some "request"
  | .rejected _ _ => none

/-- A value, provided that its record fits the schema. -/
def checked {α : Type} (model : Model) (toJson : α → Json) (ofNormal : Json → α) (a : α) :
    Except CheckedFault α :=
  (readAs model ofNormal (toJson a)).mapError (.rejected model)

def checkedPairs (lines : List Line) : Except CheckedFault (List Pair) :=
  (Pair.ofLines lines).mapM (checked .pair pairJson pairOf)

/-- The entries of a form are checked before the body that holds them. -/
def checkedBody (b : Body) : Except CheckedFault Body := do
  match b.form with
  | none => checked .body bodyJson bodyOf b
  | some entries =>
    let entries ← entries.mapM (checked .formEntry entryJson entryOf)
    checked .body bodyJson bodyOf { b with form := some entries }

def checkedAuth (a : Auth) : Except CheckedFault Auth := checked .auth authJson authOf a

def checkedMetadata (lines : List Line) : Except CheckedFault Metadata := do
  checked .metadata metadataJson metadataOf (← (readMetadata lines).mapError .lacking)

namespace Draft

/-- Reads one more section, and checks the records that it is read as. -/
def checkedStep (p : Draft) (s : Section) : Except CheckedFault Draft :=
  match s.slot? with
  | some .metadata => return { p with metadata := some (← checkedMetadata s.lines) }
  | some .headers => return { p with headers := p.headers ++ (← checkedPairs s.lines) }
  | some .queryParams => return { p with queryParams := p.queryParams ++ (← checkedPairs s.lines) }
  | some .pathParams => return { p with pathParams := p.pathParams ++ (← checkedPairs s.lines) }
  | some .body => do
    let body ← checkedBody (readBody s)
    return { p with body := if body.mode ≠ .none ∨ p.body = none then some body else p.body }
  | some .auth => do
    let auth ← checkedAuth (readAuth s)
    return { p with auth := if auth.type ≠ .none ∨ p.auth = none then some auth else p.auth }
  -- The other sections are read as texts and pairs, which are no records.
  | _ => (p.step s).mapError .lacking

/-- The request, once all sections are read, provided that its record fits. -/
def checkedFinish (p : Draft) : Except CheckedFault Request := do
  checked .request toJson ofNormal (← p.finish.mapError .lacking)

end Draft

/-- Reads a request section by section, and checks every record on the way. -/
def ofTextChecked (text : List Char) : Except CheckedFault Request :=
  (Section.scan text).foldlM Draft.checkedStep .empty >>= Draft.checkedFinish

theorem checked_eq_ok {α : Type} {model : Model} {toJson : α → Json} {ofNormal : Json → α} {a : α}
    (h : readAs model ofNormal (toJson a) = .ok a) :
    checked model toJson ofNormal a = .ok a := by
  rw [checked, h]
  rfl

theorem mapM_checked_eq_ok {α : Type} {model : Model} {toJson : α → Json} {ofNormal : Json → α}
    (h : ∀ a, readAs model ofNormal (toJson a) = .ok a) (values : List α) :
    values.mapM (checked model toJson ofNormal) = .ok values := by
  induction values with
  | nil => rfl
  | cons a values ih =>
    rw [List.mapM_cons, checked_eq_ok (h a), ih]
    rfl

theorem checkedPairs_eq (lines : List Line) : checkedPairs lines = .ok (Pair.ofLines lines) :=
  mapM_checked_eq_ok (fun p => readAs_of_normalise (normal_pairJson p) (pairOf_pairJson p)) _

theorem checkedBody_eq (b : Body) : checkedBody b = .ok b := by
  have hbody : checked .body bodyJson bodyOf b = .ok b :=
    checked_eq_ok (readAs_of_normalise (normalise_bodyJson b) (bodyOf_bodyNormal b))
  rcases b with ⟨mode, content, _ | entries⟩
  · exact hbody
  · have hentries : entries.mapM (checked .formEntry entryJson entryOf) = .ok entries :=
      mapM_checked_eq_ok (fun e => readAs_of_normalise (normal_entryJson e) (entryOf_entryJson e)) _
    simp only [checkedBody, hentries]
    exact hbody

theorem checkedAuth_eq (a : Auth) : checkedAuth a = .ok a :=
  checked_eq_ok (readAs_of_normalise (normal_authJson a) (authOf_authJson a))

theorem checkedMetadata_eq (lines : List Line) :
    checkedMetadata lines = (readMetadata lines).mapError .lacking := by
  rw [checkedMetadata]
  rcases readMetadata lines with fault | m
  · rfl
  · exact checked_eq_ok
      (readAs_of_normalise (normalise_metadataJson m) (metadataOf_metadataNormal m))

/-- No record of a section is rejected. -/
theorem Draft.checkedStep_eq (p : Draft) (s : Section) :
    p.checkedStep s = (p.step s).mapError .lacking := by
  rw [checkedStep]
  split
  case h_1 hslot =>
    simp only [step, hslot, checkedMetadata_eq]
    cases readMetadata s.lines <;> rfl
  case h_7 => rfl
  all_goals
    rename_i hslot
    simp only [step, hslot, checkedPairs_eq, checkedBody_eq, checkedAuth_eq]
    rfl

theorem Draft.foldlM_checkedStep (sections : List Section) (p : Draft) :
    sections.foldlM checkedStep p = (sections.foldlM step p).mapError .lacking := by
  induction sections generalizing p with
  | nil => rfl
  | cons s sections ih =>
    rw [List.foldlM_cons, List.foldlM_cons, checkedStep_eq]
    rcases p.step s with fault | p'
    · rfl
    · exact ih p'

theorem Draft.url_ne_of_finish {p : Draft} {r : Request} (h : p.finish = .ok r) :
    r.url ≠ "" := by
  rw [finish] at h
  split at h
  · split at h
    · dsimp only at h
      split at h
      · cases h
      · cases h
        assumption
    · cases h
  · cases h

theorem Draft.checkedFinish_eq (p : Draft) : p.checkedFinish = p.finish.mapError .lacking := by
  rw [checkedFinish]
  rcases hfinish : p.finish with fault | r
  · rfl
  · exact checked_eq_ok (ofJson_toJson (url_ne_of_finish hfinish))

/-- Every record that a document is read as fits its schema. -/
theorem ofTextChecked_eq (text : List Char) :
    ofTextChecked text = (ofText text).mapError .lacking := by
  rw [ofTextChecked, Draft.foldlM_checkedStep, ofText, ofSections_eq_foldlM]
  rcases (Section.scan text).foldlM Draft.step .empty with fault | p
  · rfl
  · exact p.checkedFinish_eq

end Courier.Request
