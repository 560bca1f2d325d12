import Courier.Proofs.Collection.Building
import Courier.Proofs.Collection.Leaf
import Courier.Proofs.Collection.Normal
import Mathlib.Tactic.Common

/-!
# Built items are valid

An item is built by one part of the library and described by another, the schema.  The two agree:
validation accepts every item that is built and leaves it as it is, and the collection of a document
that can be read is never rejected (`buildItem_valid`).
-/

namespace Courier

open Outcome (bind_eq_ok)

/-- A request that is read from a document has a name. -/
theorem Request.name_ne_of_ofText {text : List Char} {r : Request}
    (h : Request.ofText text = .ok r) : r.metadata.name ≠ "" := by
  obtain ⟨found, hfound, h⟩ := bind_eq_ok.1 h
  rcases hlast : found.getLast? with _ | metadata
  · rw [hlast] at h
    cases h
  rcases hmethod : Request.readMethod? (Section.scan text) with _ | ⟨method, pairs⟩
  · rw [hlast, hmethod] at h
    cases h
  simp only [hlast, hmethod] at h
  have hmetadata : r.metadata = metadata := by
    by_cases hurl : (Pair.last? "url" pairs).getD "" = ""
    · rw [if_pos hurl] at h
      cases h
    · rw [if_neg hurl] at h
      cases h
      rfl
  obtain ⟨s, -, hs⟩ := Outcome.exists_of_mem_mapM hfound metadata (List.mem_of_getLast? hlast)
  rw [hmetadata]
  simp only [Request.readMetadata] at hs
  split at hs
  · cases hs
  · rename_i hname
    cases hs
    exact fun heq => hname (.inl heq)

namespace Collection

open Schema (Normal)
open Script (Strategy)

/-! ## Validation of normal values -/

theorem validateItem_of_normal {item : Json} (h : Normal Model.catalog item (.record .item)) :
    validateItem item = .ok item := by
  rw [validateItem, Schema.validate, h]
  rfl

theorem validateCollection_of_normal {collection : Json}
    (h : Normal Model.catalog collection (.record .collection)) :
    validateCollection collection = .ok collection := by
  rw [validateCollection, Schema.validate, h]
  rfl

/-- What is said of a collection. -/
def infoJson (title : Json) : Json := .object [("name", title), ("schema", .string schemaUrl)]

/-- The information about a collection is at fault when its title is. -/
def Faulty (title : Json) (cause : Schema.Cause) : Prop :=
  ∀ members, (Model.required "info" (.record .info)).normalise
    (("info", infoJson title, Schema.normalise Model.catalog (infoJson title)) :: members) =
      .error [⟨["info", "name"], cause⟩]

theorem Faulty.validateCollection_ne {title : Json} {cause : Schema.Cause} (h : Faulty title cause)
    (items : List Json) (collection : Json) :
    validateCollection (collectionJson title items) ≠ .ok collection := by
  have hmem : .error [⟨["info", "name"], cause⟩] ∈
      (Model.catalog.fields .collection).map (·.normalise
        (Schema.memberReadings Model.catalog [("info", infoJson title), ("item", .array items)])) := by
    rw [Schema.memberReadings]
    exact List.mem_cons.2 (.inl (h _).symm)
  obtain ⟨issues, hissues⟩ := Schema.exists_gather_eq_error hmem
  have hcollection : collectionJson title items =
      .object [("info", infoJson title), ("item", .array items)] := rfl
  rw [validateCollection, Schema.validate, hcollection, Schema.normalise, Schema.normaliseRecord,
    hissues]
  rintro ⟨⟩

/-- A collection is rejected unless its title is a text that is not empty. -/
theorem exists_title_of_validateCollection {title : Json} {items : List Json} {collection : Json}
    (h : validateCollection (collectionJson title items) = .ok collection) :
    ∃ s, title = .string s ∧ s ≠ "" := by
  have hfaulty (cause : Schema.Cause) : ¬ Faulty title cause :=
    fun hcause => hcause.validateCollection_ne items collection h
  cases title with
  | string s =>
    refine ⟨s, rfl, ?_⟩
    rintro rfl
    exact hfaulty .emptyText fun _ => rfl
  | broken s => exact absurd (fun _ => rfl) (hfaulty .brokenText)
  | null | bool | int | real | array | object => exact absurd (fun _ => rfl) (hfaulty .noText)

mutual

theorem normal_toJson (folders : List String) :
    ∀ item : Item, (∀ leaf ∈ item.leaves folders, Normal Model.catalog leaf.item (.record .item)) →
      Normal Model.catalog item.toJson (.record .item)
  | .request content, h => by
    rw [Item.leaves] at h
    rw [Item.toJson]
    exact h _ List.mem_cons_self
  | .folder name items, h => by
    rw [Item.leaves] at h
    rw [Item.toJson]
    exact normal_folder name (normal_itemsJson (folders ++ [name]) items h)

/-- Folders are normal when all leaves in them are. -/
theorem normal_itemsJson (folders : List String) :
    ∀ items : List Item,
      (∀ leaf ∈ leavesIn folders items, Normal Model.catalog leaf.item (.record .item)) →
      ∀ json ∈ itemsJson items, Normal Model.catalog json (.record .item)
  | [], _ => by
    rw [itemsJson]
    simp
  | item :: items, h => by
    rw [leavesIn] at h
    rw [itemsJson, List.forall_mem_cons]
    exact ⟨normal_toJson folders item fun leaf hleaf => h leaf (List.mem_append_left _ hleaf),
      normal_itemsJson folders items fun leaf hleaf => h leaf (List.mem_append_right _ hleaf)⟩

end

variable {strategy : Strategy} {name : String} {r : Request} {built : Built}

theorem normal_itemOf (h : itemOf strategy name r = .ok built) :
    Normal Model.catalog built.item (.record .item) := by
  obtain ⟨url, events, -, hitem, hevents⟩ := itemOf_eq_ok h
  rw [hitem]
  refine normal_itemJson name r url fun e he => ?_
  obtain ⟨role, lines, rfl⟩ := hevents e he
  exact normal_event role lines

/-- The item of a request is no folder. -/
theorem isRequest_itemOf (h : itemOf strategy name r = .ok built) : IsRequest built.item := by
  obtain ⟨url, events, -, hitem, -⟩ := itemOf_eq_ok h
  refine ⟨_, hitem, ?_⟩
  rcases hevents : nonemptyList? events with _ | v <;> simp [Json.member?, List.lookup_cons]

/-! ## Documents -/

/-- The title of a collection that is called `given`, or else after its request. -/
theorem exists_titleOr (given : Option String) (hname : name ≠ "") :
    ∃ title, titleOr ((given.map Json.string).getD .null) name = .string title ∧ title ≠ "" := by
  rcases given with _ | s
  · exact ⟨name, rfl, hname⟩
  · by_cases hs : s = ""
    · exact ⟨name, by simp [titleOr, Json.isPresent, hs], hname⟩
    · exact ⟨s, by simp [titleOr, Json.isPresent, hs], hs⟩

/-- A collection of normal items is finished as it is. -/
theorem finish_ends {title : String} (hne : title ≠ "") {items : List Json}
    (hitems : ∀ item ∈ items, Normal Model.catalog item (.record .item)) :
    Ends (finish (.string title) items) (.ok (collectionJson (.string title) items)) := by
  rw [finish, validateCollection_of_normal (normal_collectionJson hne hitems)]
  exact .ofExcept _

/-- The collection of a request has the item of the request alone. -/
theorem ofRequest_ends {given : Json} {title : String}
    (hbuilt : itemOf strategy r.metadata.name r = .ok built)
    (htitle : titleOr given r.metadata.name = .string title) (hne : title ≠ "") :
    Ends (ofRequest strategy given r)
      (.ok (collectionJson (.string title) [built.item], built.warnings)) := by
  have hbuild := ofBuilding_ends (buildItem_ends strategy r.metadata.name r)
  rw [hbuilt] at hbuild
  refine .bind hbuild ?_
  rw [htitle]
  exact .bind (finish_ends hne (List.forall_mem_singleton.2 (normal_itemOf hbuilt))) (.pure _)

/-- The collection of the document of a request has the item of the request alone. -/
theorem ofText_titled_ends {given : Json} {title : String} {text : List Char}
    (hr : Request.ofText text = .ok r) (hbuilt : itemOf strategy r.metadata.name r = .ok built)
    (htitle : titleOr given r.metadata.name = .string title) (hne : title ≠ "") :
    Ends (ofText strategy given text) (.ok (collectionJson (.string title) [built.item])) := by
  have hparse := parse_ends text
  rw [hr] at hparse
  exact .bind hparse (.bind (ofRequest_ends hbuilt htitle hne) (.pure _))

/-- The collection of a document that can be read is accepted, and its one leaf is the item of its
request. -/
theorem ofText_ends (given : Option String) {text : List Char} (hr : Request.ofText text = .ok r)
    (hbuilt : itemOf strategy r.metadata.name r = .ok built) :
    ∃ collection, Ends (ofText strategy ((given.map Json.string).getD .null) text)
        (.ok collection) ∧
      leavesOfCollection collection = [⟨[], built.item⟩] := by
  obtain ⟨title, htitle, hne⟩ := exists_titleOr given (Request.name_ne_of_ofText hr)
  refine ⟨_, ofText_titled_ends hr hbuilt htitle hne, ?_⟩
  have hleaves : leavesIn [] [.request built.item] = [⟨[], built.item⟩] := by
    rw [leavesIn, leavesIn, Item.leaves, List.append_nil]
  have hrequest : ∀ leaf ∈ leavesIn [] [.request built.item], IsRequest leaf.item := by
    rw [hleaves]
    exact List.forall_mem_singleton.2 (isRequest_itemOf hbuilt)
  exact (leavesOfCollection_collectionJson hrequest).trans hleaves

/-- Whenever an item is built, validation accepts it and gives it back unchanged.  A document that
can be read, with an address that can be taken apart, is therefore always converted: its collection
is not rejected, and it has exactly one leaf, the item of the request.  This holds under any name
and whatever has been reported before. -/
theorem buildItem_valid (strategy : Strategy) :
    (∀ name r entries built reported,
      ((buildItem strategy name r).run.run entries).run = (.ok built, reported) →
      validateItem built.item = .ok built.item) ∧
    ∀ text r url (given : Option String) entries,
      Request.ofText text = .ok r → Url.ofText r.url.toList = .ok url →
      ∃ collection reported built,
        ((ofText strategy ((given.map Json.string).getD .null) text).run.run entries).run =
          (.ok collection, reported) ∧
        itemOf strategy r.metadata.name r = .ok built ∧
        leavesOfCollection collection = [⟨[], built.item⟩] := by
  constructor
  · intro name r entries built reported h
    have hends := buildItem_ends strategy name r entries
    rw [h] at hends
    exact validateItem_of_normal (normal_itemOf hends.symm)
  · intro text r url given entries hr hurl
    obtain ⟨built, hbuilt⟩ := itemOf_of_ofText strategy r.metadata.name hurl
    obtain ⟨collection, hends, hleaves⟩ := ofText_ends given hr hbuilt
    exact ⟨collection, _, built, Prod.ext (hends entries) rfl, hbuilt, hleaves⟩

/-- A document with a disabled header, credentials, a url-encoded body and a test. -/
def orderDocument : List Char :=
  ("meta \x7b\n  name: Order\n  type: http\n  seq: 2\n\x7d\n" ++
    "post \x7b\n  url: \x7b\x7bhost\x7d\x7d/orders?dry=1\n\x7d\n" ++
    "headers \x7b\n  ~X-Trace: on\n\x7d\nauth:basic \x7b\n  username: ada\n\x7d\n" ++
    "body:form-urlencoded \x7b\n  ~item: tea\n\x7d\ntests \x7b\n  test();\n\x7d\n").toList

/-- The request in `orderDocument`. -/
def orderRequest : Request where
  metadata := ⟨"Order", "http", some 2⟩
  method := .post
  url := "\x7b\x7bhost\x7d\x7d/orders?dry=1"
  headers := [⟨"X-Trace", "on", false⟩]
  queryParams := []
  pathParams := []
  body := some ⟨.formUrlencoded, "~item: tea", some [⟨"item", "tea", .text, false⟩]⟩
  auth := some ⟨.basic, [("username", "ada"), ("password", "")]⟩
  preScript := none
  testScript := some "test();"
  docs := none

theorem buildItem_valid_order :
    Request.ofText orderDocument = .ok orderRequest ∧
    (∃ built reported,
      ((buildItem .textual "Order" orderRequest).run.run []).run = (.ok built, reported) ∧
      validateItem built.item = .ok built.item) ∧
    ∃ collection reported built,
      ((ofText .textual .null orderDocument).run.run []).run = (.ok collection, reported) ∧
      itemOf .textual "Order" orderRequest = .ok built ∧
      leavesOfCollection collection = [⟨[], built.item⟩] := by
  have hrequest : Request.ofText orderDocument = .ok orderRequest := by decide +kernel
  have hurl : Url.ofText orderRequest.url.toList =
      .ok (Url.splitPlainly orderRequest.url.toList) := by decide +kernel
  obtain ⟨built, hbuilt⟩ := itemOf_of_ofText .textual "Order" hurl
  have hrun : ((buildItem .textual "Order" orderRequest).run.run []).run = (.ok built, _) :=
    Prod.ext ((buildItem_ends .textual "Order" orderRequest []).trans hbuilt) rfl
  exact ⟨hrequest, ⟨built, _, hrun, (buildItem_valid .textual).1 _ _ _ _ _ hrun⟩,
    (buildItem_valid .textual).2 _ _ _ none [] hrequest hurl⟩

end Collection

end Courier
