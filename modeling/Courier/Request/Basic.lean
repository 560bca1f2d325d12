import Courier.Section.Pair

/-!
# Requests

A request as a document describes it: what it is called, its method and address, its headers and
parameters, its body and authentication, its two scripts and its documentation.
-/

namespace Courier

/-- What a request is called, what kind of request it is, and its place among its siblings. -/
structure Metadata where
  name : String
  type : String
  seq : Option Int
  deriving DecidableEq, Repr

inductive Method where
  | get
  | post
  | put
  | delete
  | patch
  | head
  | options
  deriving DecidableEq, Repr

/-- The method's name in the request line. -/
def Method.name : Method → String
  | .get => "GET"
  | .post => "POST"
  | .put => "PUT"
  | .delete => "DELETE"
  | .patch => "PATCH"
  | .head => "HEAD"
  | .options => "OPTIONS"

/-- The name of the section that holds the method. -/
def Method.verb : Method → String
  | .get => "get"
  | .post => "post"
  | .put => "put"
  | .delete => "delete"
  | .patch => "patch"
  | .head => "head"
  | .options => "options"

def Method.all : List Method := [.get, .post, .put, .delete, .patch, .head, .options]

def Method.ofName? (name : String) : Option Method := Method.all.find? (·.name = name)

def Method.ofVerb? (verb : String) : Option Method := Method.all.find? (·.verb = verb)

inductive BodyMode where
  | json
  | xml
  | text
  | sparql
  | graphql
  | formUrlencoded
  | multipart
  | other
  | none
  deriving DecidableEq, Repr

def BodyMode.name : BodyMode → String
  | .json => "json"
  | .xml => "xml"
  | .text => "text"
  | .sparql => "sparql"
  | .graphql => "graphql"
  | .formUrlencoded => "form-urlencoded"
  | .multipart => "multipart"
  | .other => "other"
  | .none => "none"

def BodyMode.all : List BodyMode :=
  [.json, .xml, .text, .sparql, .graphql, .formUrlencoded, .multipart, .other, .none]

def BodyMode.ofName? (name : String) : Option BodyMode := BodyMode.all.find? (·.name = name)

/-- The variants of body sections. -/
def BodyMode.variants : List (String × BodyMode) := [
  ("json", .json),
  ("xml", .xml),
  ("text", .text),
  ("sparql", .sparql),
  ("graphql", .graphql),
  ("form-urlencoded", .formUrlencoded),
  ("multipart-form", .multipart),
  ("multipart", .multipart),
  ("none", .none)]

/-- A form entry holds text, or names a file. -/
inductive EntryType where
  | text
  | file
  deriving DecidableEq, Repr

def EntryType.name : EntryType → String
  | .text => "text"
  | .file => "file"

structure FormEntry where
  key : String
  value : String
  type : EntryType
  enabled : Bool
  deriving DecidableEq, Repr

structure Body where
  mode : BodyMode
  content : String
  form : Option (List FormEntry)
  deriving DecidableEq, Repr

inductive AuthType where
  | none
  | basic
  | bearer
  | apikey
  deriving DecidableEq, Repr

def AuthType.name : AuthType → String
  | .none => "none"
  | .basic => "basic"
  | .bearer => "bearer"
  | .apikey => "apikey"

def AuthType.all : List AuthType := [.none, .basic, .bearer, .apikey]

def AuthType.ofName? (name : String) : Option AuthType := AuthType.all.find? (·.name = name)

/-- The variants of authentication sections. -/
def AuthType.variants : List (String × AuthType) := [
  ("basic", .basic),
  ("bearer", .bearer),
  ("apikey", .apikey)]

/-- How a request authenticates, with its credentials under their names. -/
structure Auth where
  type : AuthType
  credentials : List (String × String)
  deriving DecidableEq, Repr

structure Request where
  metadata : Metadata
  method : Method
  url : String
  headers : List Pair
  queryParams : List Pair
  pathParams : List Pair
  body : Option Body
  auth : Option Auth
  preScript : Option String
  testScript : Option String
  docs : Option String
  deriving DecidableEq, Repr

theorem Method.ofVerb?_verb (m : Method) : Method.ofVerb? m.verb = some m := by
  cases m <;> rfl

theorem Method.ofName?_name (m : Method) : Method.ofName? m.name = some m := by
  cases m <;> rfl

theorem BodyMode.ofName?_name (m : BodyMode) : BodyMode.ofName? m.name = some m := by
  cases m <;> rfl

theorem AuthType.ofName?_name (t : AuthType) : AuthType.ofName? t.name = some t := by
  cases t <;> rfl

end Courier
