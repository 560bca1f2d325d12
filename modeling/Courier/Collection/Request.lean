import Courier.Collection.Schema
import Courier.Request.Basic
import Courier.Url.Basic

/-!
# Requests in collections

The form a request takes in a collection.  Objects are built with their members in the order of the
schema, so that validation leaves them as they are.  The only failure is that of taking the address
apart.
-/

namespace Courier.Collection

open Text (trim splitOn cutAtD)

/-! ## Parameters and headers -/

/-- A parameter of a parameter section, which may be switched off. -/
def queryParam (p : Pair) : Json :=
  .object [("key", .string p.key), ("value", .string p.value), ("disabled", .bool !p.enabled)]

/-- A parameter of the address itself. -/
def urlParam (p : Parameter) : Json :=
  .object [("key", .string p.key), ("value", .string p.value)]

def pathVariable (p : Pair) : Json := .object [("key", .string p.key), ("value", .string p.value)]

def header (p : Pair) : Json :=
  .object [("key", .string p.key), ("value", .string p.value), ("type", .string "text"),
    ("disabled", .bool !p.enabled)]

/-! ## Addresses -/

/-- The list of a member, unless it is empty. -/
def nonemptyList? (items : List Json) : Option Json :=
  if items.isEmpty then none else some (.array items)

/-- The parameters of a request.  Those of its sections win over those of the address. -/
def queryOf (r : Request) (url : Url) : List Json :=
  if r.queryParams.isEmpty then url.query.map urlParam else r.queryParams.map queryParam

/-- The address of a request, taken apart. -/
def urlJson (r : Request) (url : Url) : Json :=
  .object (
    [("raw", .string url.raw)] ++
    Json.member? "protocol" (url.protocol.map .string) ++
    [("host", Json.strings url.host)] ++
    Json.member? "port" (url.port.map .string) ++
    [("path", Json.strings url.path)] ++
    Json.member? "query" (nonemptyList? (queryOf r url)) ++
    Json.member? "variable" (nonemptyList? (r.pathParams.map pathVariable)) ++
    Json.member? "hash" (url.hash.map .string))

/-! ## Bodies -/

/-- An entry of a url-encoded body: one line, with a key before its first colon.  A tilde before the
key switches the entry off. -/
def urlencodedEntry (line : List Char) : Json :=
  let (before, value) := cutAtD ':' line
  let entry (key : List Char) : List (String × Json) :=
    [("key", .string (String.ofList key)), ("value", .string (String.ofList (trim value))),
      ("type", .string "text")]
  match trim before with
  | '~' :: key => .object (entry (trim key) ++ [("disabled", .bool true)])
  | key => .object (entry key)

/-- The entries of a url-encoded body. -/
def urlencodedEntries (content : List Char) : List Json :=
  (((splitOn '\n' content).map trim).filter (!·.isEmpty)).map urlencodedEntry

def formEntry (e : FormEntry) : Json :=
  .object [
    ("key", .string e.key),
    match e.type with
      | .text => ("value", .string e.value)
      | .file => ("src", .string e.value),
    ("type", .string e.type.name),
    ("disabled", .bool !e.enabled)]

/-- The modes of bodies whose text has a language of its own. -/
def languages : List (BodyMode × String) := [(.json, "json"), (.xml, "xml"), (.text, "text")]

/-- The body of a request. -/
def bodyJson (b : Body) : Json :=
  match languages.lookup b.mode, b.mode with
  | some language, _ =>
    .object [("mode", .string "raw"), ("raw", .string b.content),
      ("options", .object [("raw", .object [("language", .string language)])])]
  | none, .formUrlencoded =>
    .object [("mode", .string "urlencoded"),
      ("urlencoded", .array (urlencodedEntries b.content.toList))]
  | none, .multipart =>
    .object [("mode", .string "formdata"), ("formdata", .array ((b.form.getD []).map formEntry))]
  | none, _ => .object [("mode", .string "raw"), ("raw", .string b.content)]

/-! ## Authentication -/

def credentialJson (key value : String) : Json :=
  .object [("key", .string key), ("value", .string value), ("type", .string "string")]

/-- The authentication of a request. -/
def authJson (a : Auth) : Json :=
  let credential (name fallback : String) : String := (a.credentials.lookup name).getD fallback
  match a.type with
  | .none => .object [("type", .string "noauth")]
  | .basic =>
    .object [("type", .string "basic"), ("basic", .array [
      credentialJson "username" (credential "username" ""),
      credentialJson "password" (credential "password" "")])]
  | .bearer =>
    .object [("type", .string "bearer"), ("bearer", .array [
      credentialJson "token" (credential "token" "")])]
  | .apikey =>
    .object [("type", .string "apikey"), ("apikey", .array [
      credentialJson "key" (credential "key" ""),
      credentialJson "value" (credential "value" ""),
      credentialJson "in" (credential "placement" "header")])]

/-! ## Requests -/

/-- The body, unless the request has none. -/
def bodyMember? (r : Request) : Option Json :=
  match r.body with
  | some b => if b.mode = .none then none else some (bodyJson b)
  | none => none

/-- The authentication, unless the request has none. -/
def authMember? (r : Request) : Option Json :=
  match r.auth with
  | some a => if a.type = .none then none else some (authJson a)
  | none => none

/-- The documentation, unless it is empty. -/
def description? (r : Request) : Option Json :=
  match r.docs with
  | some docs => if docs = "" then none else some (.string docs)
  | none => none

/-- A request with its address taken apart, without its scripts. -/
def requestJson (r : Request) (url : Url) : Json :=
  .object (
    [("method", .string r.method.name),
      ("header", .array (r.headers.map header)),
      ("url", urlJson r url)] ++
    Json.member? "body" (bodyMember? r) ++
    Json.member? "auth" (authMember? r) ++
    Json.member? "description" (description? r))

/-- A request without its scripts. -/
def convertRequest (r : Request) : Except Url.TokenFault Json :=
  (Url.ofText r.url.toList).map (requestJson r)

end Courier.Collection
