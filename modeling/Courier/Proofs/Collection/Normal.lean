import Courier.Collection.Convert
import Courier.Proofs.Schema.Normal
import Mathlib.Data.List.Basic
import Mathlib.Tactic.Common

/-!
# What is built is normal

Objects are built with the members that the schema declares, in its order.  Every object of this
library is therefore normal under the record it stands for, from the pairs of a section up to an
item (`normal_itemJson`), a folder (`normal_folder`) and a collection (`normal_collectionJson`).
Validation accepts such an object and gives it back.
-/

namespace Courier.Collection

open Schema (Normal Conforms DistinctKeys)

theorem distinctKeys_catalog (model : Model) : DistinctKeys (Model.catalog.fields model) := by
  cases model <;> decide

/-- Only items have a rule of their own. -/
theorem rule_eq_none {model : Model} (h : model ≠ .item) (members : List (String × Json)) :
    Model.catalog.rule model members = none := by
  simp [Model.catalog, Model.rule, h]

/-- An object that stands for a record other than an item. -/
theorem normal_record {model : Model} {members : List (String × Json)} (hmodel : model ≠ .item)
    (h : Conforms Model.catalog (Model.fields model) members) :
    Normal Model.catalog (.object members) (.record model) :=
  Conforms.normal h (distinctKeys_catalog model) (rule_eq_none hmodel members)

theorem normal_word {s : String} {words : List String} (h : s ∈ words) :
    Normal Model.catalog (.string s) (.oneOf words) := Schema.normal_oneOf h

/-- A list that is left out when it is empty. -/
theorem normal_nonemptyList? {items : List Json} {model : Model}
    (h : ∀ item ∈ items, Normal Model.catalog item (.record model)) :
    ∀ v ∈ nonemptyList? items,
      Normal Model.catalog v (.list (.record model)) ∧ v ≠ .null := by
  intro v hv
  rw [nonemptyList?] at hv
  split at hv
  · cases hv
  · cases hv
    exact ⟨Schema.normal_list h, nofun⟩

/-- A text that may be missing. -/
theorem normal_text? (text : Option String) :
    ∀ v ∈ text.map Json.string, Normal Model.catalog v .text ∧ v ≠ .null := by
  intro v hv
  obtain ⟨s, -, rfl⟩ := Option.map_eq_some_iff.1 hv
  exact ⟨Schema.normal_text s, nofun⟩

/-! ## Parameters, headers and addresses -/

theorem normal_queryParam (p : Pair) :
    Normal Model.catalog (queryParam p) (.record .queryParam) :=
  normal_record nofun <|
    .given (Schema.normal_text p.key) nofun <| .given (Schema.normal_text p.value) nofun <|
    .given (Schema.normal_flag _) nofun <| .dropped rfl .nil

theorem normal_urlParam (p : Parameter) :
    Normal Model.catalog (urlParam p) (.record .queryParam) :=
  normal_record nofun <|
    .given (Schema.normal_text p.key) nofun <| .given (Schema.normal_text p.value) nofun <|
    .dropped rfl <| .dropped rfl .nil

theorem normal_pathVariable (p : Pair) :
    Normal Model.catalog (pathVariable p) (.record .pathVariable) :=
  normal_record nofun <|
    .given (Schema.normal_text p.key) nofun <| .given (Schema.normal_text p.value) nofun <|
    .dropped rfl .nil

theorem normal_header (p : Pair) : Normal Model.catalog (header p) (.record .header) :=
  normal_record nofun <|
    .given (Schema.normal_text p.key) nofun <| .given (Schema.normal_text p.value) nofun <|
    .given (Schema.normal_text "text") nofun <| .given (Schema.normal_flag _) nofun <|
    .dropped rfl .nil

theorem normal_queryOf (r : Request) (url : Url) :
    ∀ item ∈ queryOf r url, Normal Model.catalog item (.record .queryParam) := by
  intro item hitem
  rw [queryOf] at hitem
  split at hitem
  · obtain ⟨p, -, rfl⟩ := List.mem_map.1 hitem
    exact normal_urlParam p
  · obtain ⟨p, -, rfl⟩ := List.mem_map.1 hitem
    exact normal_queryParam p

theorem normal_urlJson (r : Request) (url : Url) :
    Normal Model.catalog (urlJson r url) (.record .url) := by
  refine normal_record nofun ?_
  simp only [List.append_assoc, List.cons_append, List.nil_append]
  refine .given (Schema.normal_text url.raw) nofun ?_
  refine .member? (Model.optional "protocol" .text) rfl (normal_text? url.protocol) ?_
  refine .given (Schema.normal_strings url.host) nofun ?_
  refine .member? (Model.optional "port" .text) rfl (normal_text? url.port) ?_
  refine .given (Schema.normal_strings url.path) nofun ?_
  refine .member? (Model.optional "query" (.list (.record .queryParam))) rfl
    (normal_nonemptyList? (normal_queryOf r url)) ?_
  refine .member? (Model.optional "variable" (.list (.record .pathVariable))) rfl
    (normal_nonemptyList? fun item hitem => ?_) ?_
  · obtain ⟨p, -, rfl⟩ := List.mem_map.1 hitem
    exact normal_pathVariable p
  · rw [← List.append_nil (Json.member? "hash" _)]
    exact .member? (Model.optional "hash" .text) rfl (normal_text? url.hash) .nil

/-! ## Bodies and authentication -/

theorem normal_urlencodedEntry (line : List Char) :
    Normal Model.catalog (urlencodedEntry line) (.record .urlencodedEntry) := by
  simp only [urlencodedEntry]
  split
  · exact normal_record nofun <|
      .given (Schema.normal_text _) nofun <| .given (Schema.normal_text _) nofun <|
      .given (Schema.normal_text "text") nofun <| .given (Schema.normal_flag true) nofun <|
      .dropped rfl .nil
  · exact normal_record nofun <|
      .given (Schema.normal_text _) nofun <| .given (Schema.normal_text _) nofun <|
      .given (Schema.normal_text "text") nofun <| .dropped rfl <| .dropped rfl .nil

/-- The value of an entry stands under a key of its own for each type. -/
theorem normal_formEntry (e : FormEntry) :
    Normal Model.catalog (formEntry e) (.record .formEntry) := by
  rw [formEntry]
  rcases e.type with _ | _
  · exact normal_record nofun <|
      .given (Schema.normal_text e.key) nofun <| .given (Schema.normal_text e.value) nofun <|
      .dropped rfl <| .given (normal_word (by decide)) nofun <|
      .given (Schema.normal_flag _) nofun <| .dropped rfl .nil
  · exact normal_record nofun <|
      .given (Schema.normal_text e.key) nofun <| .dropped rfl <|
      .given (Schema.normal_text e.value) nofun <| .given (normal_word (by decide)) nofun <|
      .given (Schema.normal_flag _) nofun <| .dropped rfl .nil

/-- A body of one text, in a language if there is one for it. -/
theorem normal_rawBody (content : String) (options : Option Json)
    (h : ∀ v ∈ options, Normal Model.catalog v (.record .bodyOptions) ∧ v ≠ .null) :
    Normal Model.catalog
      (.object ([("mode", .string "raw"), ("raw", .string content)] ++
        Json.member? "options" options)) (.record .body) := by
  refine normal_record nofun ?_
  simp only [List.cons_append, List.nil_append]
  refine .given (normal_word (by decide)) nofun ?_
  refine .given (Schema.normal_text content) nofun ?_
  refine .dropped rfl (.dropped rfl ?_)
  rw [← List.append_nil (Json.member? "options" _)]
  exact .member? (Model.optional "options" (.record .bodyOptions)) rfl h .nil

theorem normal_bodyOptions {language : String}
    (h : language ∈ ["json", "xml", "html", "text", "javascript"]) :
    Normal Model.catalog (.object [("raw", .object [("language", .string language)])])
      (.record .bodyOptions) := by
  have hraw : Normal Model.catalog (.object [("language", .string language)])
      (.record .rawOptions) := normal_record nofun (.given (normal_word h) nofun .nil)
  exact normal_record nofun (.given hraw nofun .nil)

theorem mem_languages {mode : BodyMode} {language : String}
    (h : languages.lookup mode = some language) :
    language ∈ ["json", "xml", "html", "text", "javascript"] := by
  obtain ⟨before, after, heq, -⟩ := List.lookup_eq_some_iff.1 h
  have hmem : (mode, language) ∈ languages := heq ▸ List.mem_append_right _ List.mem_cons_self
  have hall : ∀ p ∈ languages, p.2 ∈ ["json", "xml", "html", "text", "javascript"] := by decide
  exact hall _ hmem

theorem normal_bodyJson (b : Body) : Normal Model.catalog (bodyJson b) (.record .body) := by
  rw [bodyJson]
  split
  · rename_i language _ hlanguage
    have hoptions := normal_bodyOptions (mem_languages hlanguage)
    exact normal_rawBody b.content (some _) fun v hv => by
      cases hv
      exact ⟨hoptions, nofun⟩
  · have hentries : Normal Model.catalog (.array (urlencodedEntries b.content.toList))
        (.list (.record .urlencodedEntry)) := Schema.normal_list fun item hitem => by
      obtain ⟨line, -, rfl⟩ := List.mem_map.1 hitem
      exact normal_urlencodedEntry line
    exact normal_record nofun <|
      .given (normal_word (by decide)) nofun <| .dropped rfl <| .given hentries nofun <|
      .dropped rfl <| .dropped rfl .nil
  · have hentries : Normal Model.catalog (.array ((b.form.getD []).map formEntry))
        (.list (.record .formEntry)) := Schema.normal_list fun item hitem => by
      obtain ⟨e, -, rfl⟩ := List.mem_map.1 hitem
      exact normal_formEntry e
    exact normal_record nofun <|
      .given (normal_word (by decide)) nofun <| .dropped rfl <| .dropped rfl <|
      .given hentries nofun <| .dropped rfl .nil
  · exact normal_rawBody b.content none nofun

theorem normal_credentialJson (key value : String) :
    Normal Model.catalog (credentialJson key value) (.record .authAttribute) :=
  normal_record nofun <|
    .given (Schema.normal_text key) nofun <| .given (Schema.normal_text value) nofun <|
    .given (Schema.normal_text "string") nofun .nil

/-- Credentials as the attributes of an authentication. -/
theorem normal_credentials (credentials : List (String × String)) :
    Normal Model.catalog (.array (credentials.map fun (key, value) => credentialJson key value))
      (.list (.record .authAttribute)) :=
  Schema.normal_list fun item hitem => by
    obtain ⟨⟨key, value⟩, -, rfl⟩ := List.mem_map.1 hitem
    exact normal_credentialJson key value

theorem normal_authJson (a : Auth) : Normal Model.catalog (authJson a) (.record .auth) := by
  rw [authJson]
  rcases a.type with _ | _ | _ | _
  · exact normal_record nofun <|
      .given (normal_word (by decide)) nofun <| .dropped rfl <| .dropped rfl <| .dropped rfl .nil
  · exact normal_record nofun <|
      .given (normal_word (by decide)) nofun <|
      .given (normal_credentials [("username", _), ("password", _)]) nofun <|
      .dropped rfl <| .dropped rfl .nil
  · exact normal_record nofun <|
      .given (normal_word (by decide)) nofun <| .dropped rfl <|
      .given (normal_credentials [("token", _)]) nofun <| .dropped rfl .nil
  · exact normal_record nofun <|
      .given (normal_word (by decide)) nofun <| .dropped rfl <| .dropped rfl <|
      .given (normal_credentials [("key", _), ("value", _), ("in", _)]) nofun .nil

/-! ## Requests and items -/

theorem normal_bodyMember? {r : Request} {v : Json} (h : v ∈ bodyMember? r) :
    Normal Model.catalog v (.record .body) ∧ v ≠ .null := by
  rw [bodyMember?] at h
  split at h <;> try split at h
  all_goals cases h
  exact ⟨normal_bodyJson _, by rw [bodyJson]; split <;> nofun⟩

theorem normal_authMember? {r : Request} {v : Json} (h : v ∈ authMember? r) :
    Normal Model.catalog v (.record .auth) ∧ v ≠ .null := by
  rw [authMember?] at h
  split at h <;> try split at h
  all_goals cases h
  exact ⟨normal_authJson _, by rw [authJson]; split <;> nofun⟩

theorem normal_description? {r : Request} {v : Json} (h : v ∈ description? r) :
    Normal Model.catalog v .text ∧ v ≠ .null := by
  rw [description?] at h
  split at h <;> try split at h
  all_goals cases h
  exact ⟨Schema.normal_text _, nofun⟩

theorem normal_requestJson (r : Request) (url : Url) :
    Normal Model.catalog (requestJson r url) (.record .request) := by
  have hheaders : Normal Model.catalog (.array (r.headers.map header))
      (.list (.record .header)) := Schema.normal_list fun item hitem => by
    obtain ⟨p, -, rfl⟩ := List.mem_map.1 hitem
    exact normal_header p
  refine normal_record nofun ?_
  simp only [List.append_assoc, List.cons_append, List.nil_append]
  refine .given (Schema.normal_text r.method.name) nofun ?_
  refine .given hheaders nofun ?_
  refine .given (normal_urlJson r url) nofun ?_
  refine .member? (Model.optional "body" (.record .body)) rfl (fun _ => normal_bodyMember?) ?_
  refine .member? (Model.optional "auth" (.record .auth)) rfl (fun _ => normal_authMember?) ?_
  rw [← List.append_nil (Json.member? "description" _)]
  exact .member? Model.description rfl (fun _ => normal_description?) .nil

theorem normal_event (role : Script.Role) (lines : List String) :
    Normal Model.catalog (event (listenerOf role) lines) (.record .event) := by
  have hscript : Normal Model.catalog
      (.object [("type", .string "text/javascript"), ("exec", Json.strings lines)])
      (.record .script) :=
    normal_record nofun <|
      .given (normal_word (by decide)) nofun <| .given (Schema.normal_strings lines) nofun .nil
  have hlisten : listenerOf role ∈ ["prerequest", "test"] := by cases role <;> decide
  exact normal_record nofun (.given (normal_word hlisten) nofun (.given hscript nofun .nil))

/-- An item of a request with events. -/
theorem normal_itemJson (name : String) (r : Request) (url : Url) {events : List Json}
    (h : ∀ e ∈ events, Normal Model.catalog e (.record .event)) :
    Normal Model.catalog (itemJson name (requestJson r url) events) (.record .item) := by
  refine Conforms.normal ?_ (distinctKeys_catalog .item) ?_
  · simp only [List.cons_append, List.nil_append]
    refine .given (Schema.normal_text name) nofun (.dropped rfl (.dropped rfl ?_))
    refine .given (normal_requestJson r url) nofun ?_
    rw [← List.append_nil (Json.member? "event" _)]
    exact .member? (Model.optional "event" (.list (.record .event))) rfl
      (normal_nonemptyList? h) .nil
  · rcases hevents : nonemptyList? events with _ | v <;>
      simp [Model.catalog, Model.rule, Json.member?, List.lookup_cons]

/-- A folder of items. -/
theorem normal_folder (name : String) {items : List Json}
    (h : ∀ item ∈ items, Normal Model.catalog item (.record .item)) :
    Normal Model.catalog (.object [("name", .string name), ("item", .array items)])
      (.record .item) := by
  refine Conforms.normal ?_ (distinctKeys_catalog .item) rfl
  exact .given (Schema.normal_text name) nofun <| .dropped rfl <|
    .given (Schema.normal_list h) nofun <| .dropped rfl <| .dropped rfl .nil

/-- A collection of items under a title. -/
theorem normal_collectionJson {title : String} (htitle : title ≠ "") {items : List Json}
    (h : ∀ item ∈ items, Normal Model.catalog item (.record .item)) :
    Normal Model.catalog (collectionJson (.string title) items) (.record .collection) := by
  have hinfo : Normal Model.catalog
      (.object [("name", .string title), ("schema", .string schemaUrl)]) (.record .info) :=
    normal_record nofun <|
      .given (Schema.normal_nonemptyText htitle) nofun <|
      .given (Schema.normal_text schemaUrl) nofun <| .dropped rfl .nil
  exact normal_record nofun (.given hinfo nofun (.given (Schema.normal_list h) nofun .nil))

end Courier.Collection
