import Courier.Request.Basic
import Courier.Schema.Basic

/-!
# Requests as JSON

The JSON form of a request and the schema by which it is read.  In the written form every field is
present.
-/

namespace Courier.Request

open Schema (Catalog FieldRule Shape Issue)

/-- The records of a request. -/
inductive Model where
  | metadata
  | pair
  | formEntry
  | body
  | auth
  | request
  deriving DecidableEq, Repr

namespace Model

/-- What a record is called in messages. -/
def name : Model → String
  | .metadata => "BrunoMeta"
  | .pair => "BrunoKeyValue"
  | .formEntry => "FormDataEntry"
  | .body => "BrunoBody"
  | .auth => "BrunoAuth"
  | .request => "BrunoRequest"

/-- Fields that may be missing. -/
def optional (key : String) (shape : Shape Model) : FieldRule Model := ⟨key, shape, .dropped, []⟩

/-- Fields that have to be given. -/
def required (key : String) (shape : Shape Model) : FieldRule Model := ⟨key, shape, .refused, []⟩

/-- A list of pairs, empty when it is missing. -/
def pairs (key : String) : FieldRule Model := ⟨key, .list (.record .pair), .filled (.array []), []⟩

def enabled : FieldRule Model := ⟨"enabled", .flag, .filled (.bool true), []⟩

def methods : List String := ["GET", "POST", "PUT", "DELETE", "PATCH", "HEAD", "OPTIONS"]

def bodyModes : List String :=
  ["json", "xml", "text", "sparql", "graphql", "form-urlencoded", "multipart", "other", "none"]

def authTypes : List String := ["none", "basic", "bearer", "apikey"]

def fields : Model → List (FieldRule Model)
  | .metadata => [required "name" .text, required "type" .text, optional "seq" .integer]
  | .pair => [required "key" .text, required "value" .text, enabled]
  | .formEntry => [
      required "key" .text,
      required "value" .text,
      ⟨"type", .oneOf ["text", "file"], .filled (.string "text"), []⟩,
      enabled]
  | .body => [
      required "mode" (.oneOf bodyModes),
      ⟨"content", .text, .filled (.string ""), []⟩,
      optional "form_data" (.list (.record .formEntry))]
  | .auth => [
      required "type" (.oneOf authTypes),
      ⟨"credentials", .textMap, .filled (.object []), []⟩]
  | .request => [
      required "meta" (.record .metadata),
      required "method" (.oneOf methods),
      required "url" .nonemptyText,
      pairs "headers",
      pairs "query_params",
      pairs "path_params",
      optional "body" (.record .body),
      optional "auth" (.record .auth),
      optional "pre_request_script" .text,
      optional "test_script" .text,
      optional "docs" .text]

def catalog : Catalog Model := ⟨name, fields, fun _ _ => none⟩

end Model

/-! ## Reading normal forms -/

def textOf : Json → String
  | .string s => s
  | _ => ""

def itemsOf : Json → List Json
  | .array items => items
  | _ => []

/-- The text of a member, empty when it is missing. -/
def textAt (key : String) (value : Json) : String := ((value.get? key).map textOf).getD ""

def itemsAt (key : String) (value : Json) : List Json := ((value.get? key).map itemsOf).getD []

def isEnabled (value : Json) : Bool :=
  match value.get? "enabled" with
  | some (.bool b) => b
  | _ => true

def pairOf (value : Json) : Pair := ⟨textAt "key" value, textAt "value" value, isEnabled value⟩

def entryOf (value : Json) : FormEntry :=
  { key := textAt "key" value
    value := textAt "value" value
    type := if textAt "type" value = "file" then .file else .text
    enabled := isEnabled value }

def bodyOf (value : Json) : Body :=
  { mode := (BodyMode.ofName? (textAt "mode" value)).getD .none
    content := textAt "content" value
    form := (value.get? "form_data").map fun entries => (itemsOf entries).map entryOf }

def authOf (value : Json) : Auth :=
  { type := (AuthType.ofName? (textAt "type" value)).getD .none
    credentials := match value.get? "credentials" with
      | some (.object members) => members.map fun (key, v) => (key, textOf v)
      | _ => [] }

def metadataOf (value : Json) : Metadata :=
  { name := textAt "name" value
    type := textAt "type" value
    seq := match value.get? "seq" with
      | some (.int n) => some n
      | _ => none }

def ofNormal (value : Json) : Request :=
  { metadata := metadataOf ((value.get? "meta").getD .null)
    method := (Method.ofName? (textAt "method" value)).getD .get
    url := textAt "url" value
    headers := (itemsAt "headers" value).map pairOf
    queryParams := (itemsAt "query_params" value).map pairOf
    pathParams := (itemsAt "path_params" value).map pairOf
    body := (value.get? "body").map bodyOf
    auth := (value.get? "auth").map authOf
    preScript := (value.get? "pre_request_script").map textOf
    testScript := (value.get? "test_script").map textOf
    docs := (value.get? "docs").map textOf }

/-- Reads a value by the schema of a record. -/
def readAs {α : Type} (model : Model) (ofNormal : Json → α) (value : Json) :
    Except (List Issue) α :=
  (Schema.normalise Model.catalog value (.record model)).map ofNormal

def ofJson (value : Json) : Except (List Issue) Request := readAs .request ofNormal value

/-! ## Writing -/

def optionalText (value : Option String) : Json :=
  match value with
  | some s => .string s
  | none => .null

def pairJson (p : Pair) : Json :=
  .object [("key", .string p.key), ("value", .string p.value), ("enabled", .bool p.enabled)]

def entryJson (e : FormEntry) : Json :=
  .object [("key", .string e.key), ("value", .string e.value), ("type", .string e.type.name),
    ("enabled", .bool e.enabled)]

def bodyJson (b : Body) : Json :=
  .object [("mode", .string b.mode.name), ("content", .string b.content),
    ("form_data", match b.form with
      | some entries => .array (entries.map entryJson)
      | none => .null)]

def textMapJson (fields : List (String × String)) : Json :=
  .object (fields.map fun (key, value) => (key, .string value))

def authJson (a : Auth) : Json :=
  .object [("type", .string a.type.name), ("credentials", textMapJson a.credentials)]

def metadataJson (m : Metadata) : Json :=
  .object [("name", .string m.name), ("type", .string m.type),
    ("seq", match m.seq with
      | some n => .int n
      | none => .null)]

def toJson (r : Request) : Json :=
  .object [
    ("meta", metadataJson r.metadata),
    ("method", .string r.method.name),
    ("url", .string r.url),
    ("headers", .array (r.headers.map pairJson)),
    ("query_params", .array (r.queryParams.map pairJson)),
    ("path_params", .array (r.pathParams.map pairJson)),
    ("body", (r.body.map bodyJson).getD .null),
    ("auth", (r.auth.map authJson).getD .null),
    ("pre_request_script", optionalText r.preScript),
    ("test_script", optionalText r.testScript),
    ("docs", optionalText r.docs)]

end Courier.Request
