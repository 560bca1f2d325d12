import Courier.Schema.Basic

/-!
# The schemas of collections and environments

The records of version 2.1 of the collection format, as far as collections are written here, and
those of the environment format.  An item of a collection is a request or a folder, and not both; a
folder has no events.
-/

namespace Courier.Collection

open Schema (Catalog FieldRule Shape Rejection)

/-- The records of the two formats. -/
inductive Model where
  | header
  | queryParam
  | pathVariable
  | url
  | urlencodedEntry
  | formEntry
  | rawOptions
  | bodyOptions
  | body
  | authAttribute
  | auth
  | script
  | event
  | request
  | item
  | info
  | collection
  | environmentValue
  | environment
  deriving DecidableEq, Repr

/-- The address of the collection format's definition. -/
def schemaUrl : String := "https://schema.getpostman.com/json/collection/v2.1.0/collection.json"

namespace Model

/-- What a record is called in messages. -/
def name : Model → String
  | .header => "PostmanHeader"
  | .queryParam => "PostmanQueryParam"
  | .pathVariable => "PostmanPathVariable"
  | .url => "PostmanUrl"
  | .urlencodedEntry => "PostmanKeyValue"
  | .formEntry => "PostmanFormData"
  | .rawOptions => "PostmanRawOptions"
  | .bodyOptions => "PostmanBodyOptions"
  | .body => "PostmanBody"
  | .authAttribute => "PostmanAuthAttribute"
  | .auth => "PostmanAuth"
  | .script => "PostmanScript"
  | .event => "PostmanEvent"
  | .request => "PostmanRequest"
  | .item => "PostmanItem"
  | .info => "PostmanInfo"
  | .collection => "PostmanCollection"
  | .environmentValue => "PostmanEnvironmentValue"
  | .environment => "PostmanEnvironment"

/-- Fields that have to be given. -/
def required (key : String) (shape : Shape Model) : FieldRule Model := ⟨key, shape, .refused, []⟩

/-- Fields that may be missing. -/
def optional (key : String) (shape : Shape Model) : FieldRule Model := ⟨key, shape, .dropped, []⟩

/-- Fields with a text for the case that they are missing. -/
def textOr (key : String) (shape : Shape Model) (value : String) : FieldRule Model :=
  ⟨key, shape, .filled (.string value), []⟩

def description : FieldRule Model := optional "description" .text

def disabled : FieldRule Model := optional "disabled" .flag

def authTypes : List String :=
  ["noauth", "basic", "bearer", "apikey", "oauth2", "awsv4", "digest", "hawk"]

def attributes (key : String) : FieldRule Model := optional key (.list (.record .authAttribute))

def fields : Model → List (FieldRule Model)
  | .header => [
      required "key" .text, required "value" .text, textOr "type" .text "text", disabled,
      description]
  | .queryParam => [required "key" .text, required "value" .text, disabled, description]
  | .pathVariable => [required "key" .text, required "value" .text, description]
  | .url => [
      required "raw" .text,
      optional "protocol" .text,
      optional "host" (.list .text),
      optional "port" .text,
      optional "path" (.list .text),
      optional "query" (.list (.record .queryParam)),
      optional "variable" (.list (.record .pathVariable)),
      optional "hash" .text]
  | .urlencodedEntry => [
      required "key" .text, required "value" .text, optional "type" .text, disabled, description]
  | .formEntry => [
      required "key" .text, optional "value" .text, optional "src" .text,
      required "type" (.oneOf ["text", "file"]), disabled, description]
  | .rawOptions => [optional "language" (.oneOf ["json", "xml", "html", "text", "javascript"])]
  | .bodyOptions => [optional "raw" (.record .rawOptions)]
  | .body => [
      required "mode" (.oneOf ["raw", "urlencoded", "formdata", "file", "graphql"]),
      optional "raw" .text,
      optional "urlencoded" (.list (.record .urlencodedEntry)),
      optional "formdata" (.list (.record .formEntry)),
      optional "options" (.record .bodyOptions)]
  | .authAttribute => [
      required "key" .text, required "value" .text, textOr "type" .text "string"]
  | .auth => [
      required "type" (.oneOf authTypes), attributes "basic", attributes "bearer",
      attributes "apikey"]
  | .script => [
      textOr "type" (.oneOf ["text/javascript"]) "text/javascript",
      required "exec" (.list .text)]
  | .event => [required "listen" (.oneOf ["prerequest", "test"]), required "script" (.record .script)]
  | .request => [
      required "method" .text,
      ⟨"header", .list (.record .header), .filled (.array []), []⟩,
      required "url" (.record .url),
      optional "body" (.record .body),
      optional "auth" (.record .auth),
      description]
  | .item => [
      required "name" .text,
      description,
      optional "item" (.list (.record .item)),
      optional "request" (.record .request),
      optional "event" (.list (.record .event))]
  | .info => [
      required "name" .nonemptyText,
      ⟨"schema", .text, .filled (.string schemaUrl), ["schema_url"]⟩,
      description]
  | .collection => [required "info" (.record .info), required "item" (.list (.record .item))]
  | .environmentValue => [
      required "key" .text,
      required "value" .text,
      ⟨"enabled", .flag, .filled (.bool true), []⟩,
      textOr "type" (.oneOf ["default", "secret"]) "default"]
  | .environment => [
      required "id" .text,
      required "name" .text,
      required "values" (.list (.record .environmentValue)),
      ⟨"_postman_variable_scope", .oneOf ["environment"], .filled (.string "environment"),
        ["variable_scope"]⟩,
      ⟨"_postman_exported_at", .text, .refused, ["exported_at"]⟩,
      ⟨"_postman_exported_using", .text, .refused, ["exported_using"]⟩]

/-- Whether a member is a list with an item in it. -/
def hasItems (key : String) (members : List (String × Json)) : Bool :=
  match members.lookup key with
  | some (.array items) => !items.isEmpty
  | _ => false

/-- The rule of items. -/
def rule (model : Model) (members : List (String × Json)) : Option String :=
  let isFolder := (members.lookup "item").isSome
  let isRequest := (members.lookup "request").isSome
  if model ≠ .item then none
  else if isFolder = isRequest then
    some "an item must have either 'request' or 'item', not both or neither"
  else if isFolder && hasItems "event" members then
    some "a folder item cannot carry request events"
  else none

def catalog : Catalog Model := ⟨name, fields, rule⟩

end Model

/-- The name an item is given in messages. -/
def nameInMessage (item : Json) : String :=
  match item.get? "name" with
  | some name => name.display
  | none => "?"

/-- What an item is called when it is rejected. -/
def itemSubject (name : String) : String := s!"Postman item '{name}'"

/-- The normal form of an item. -/
def validateItem (item : Json) : Except Rejection Json :=
  Schema.validate Model.catalog .item (itemSubject (nameInMessage item)) item

/-- The normal form of a collection. -/
def validateCollection (collection : Json) : Except Rejection Json :=
  Schema.validate Model.catalog .collection "Postman collection" collection

/-- The normal form of an environment. -/
def validateEnvironment (environment : Json) : Except Rejection Json :=
  Schema.validate Model.catalog .environment "Postman environment" environment

end Courier.Collection
