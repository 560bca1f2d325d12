import Courier.Json.Display
import Courier.Text.Numeral

/-!
# Schemas of records

A schema says which JSON values stand for a record.  Records have fields of given shapes, in a fixed
order; a shape may name further records, so that schemas can be recursive.  `normalise` reads a value
by a shape and gives its normal form: the declared fields only, in order, each under its first key,
with absent values filled in or dropped.  When the value does not fit, all issues are given in the
order of the fields.

Reading is lenient for numbers and flags, which may also be written as texts.

The records of a schema are the constructors of a type `M`, and a `Catalog` describes them.
-/

namespace Courier.Schema

/-- What is wrong with a value. -/
inductive Cause where
  | missing
  | noText
  | brokenText
  | emptyText
  | noList
  | noMap
  | noRecord (name : String)
  | noneOf (words : List String)
  | noInteger
  | unreadableInteger
  | oversizedInteger
  | noFlag
  | unreadableFlag
  | rule (text : String)
  deriving DecidableEq, Repr

/-- Words in quotes, with commas between them and "or" before the last. -/
def alternatives : List String → String
  | [] => ""
  | [a] => s!"'{a}'"
  | [a, b] => s!"'{a}' or '{b}'"
  | a :: rest => s!"'{a}', " ++ alternatives rest

def Cause.message : Cause → String
  | .missing => "Field required"
  | .noText => "Input should be a valid string"
  | .brokenText =>
    "Input should be a valid string, unable to parse raw data as a unicode string"
  | .emptyText => "String should have at least 1 character"
  | .noList => "Input should be a valid list"
  | .noMap => "Input should be a valid dictionary"
  | .noRecord name => s!"Input should be a valid dictionary or instance of {name}"
  | .noneOf words => s!"Input should be {alternatives words}"
  | .noInteger => "Input should be a valid integer"
  | .unreadableInteger => "Input should be a valid integer, unable to parse string as an integer"
  | .oversizedInteger => "Unable to parse input string as an integer, exceeded maximum size"
  | .noFlag => "Input should be a valid boolean"
  | .unreadableFlag => "Input should be a valid boolean, unable to interpret input"
  | .rule text => s!"Value error, {text}"

/-- Something wrong at a place, which is given by the keys and indexes that lead to it. -/
structure Issue where
  path : List String
  cause : Cause
  deriving DecidableEq, Repr

/-- The place of an issue. -/
def Issue.location (issue : Issue) : String :=
  let place := String.intercalate "." issue.path
  if place = "" then "<root>" else place

def Issue.text (issue : Issue) : String := s!"{issue.location}: {issue.cause.message}"

/-- The issue below a key or an index. -/
def Issue.below (step : String) (issue : Issue) : Issue := { issue with path := step :: issue.path }

/-- A value, or everything that is wrong. -/
abbrev Checked (α : Type) := Except (List Issue) α

/-- Fails with one issue at the place itself. -/
def refuse {α : Type} (cause : Cause) : Checked α := .error [⟨[], cause⟩]

/-- A result below a key or an index. -/
def under {α : Type} (step : String) (result : Checked α) : Checked α :=
  result.mapError (·.map (Issue.below step))

/-- All values, or the issues of all results. -/
def gather {α : Type} : List (Checked α) → Checked (List α)
  | [] => .ok []
  | .ok a :: rest => (gather rest).map (a :: ·)
  | .error issues :: rest =>
    match gather rest with
    | .ok _ => .error issues
    | .error more => .error (issues ++ more)

/-! ## Shapes -/

/-- The shape of a value. -/
inductive Shape (M : Type) where
  | text
  | nonemptyText
  | flag
  | integer
  | oneOf (words : List String)
  | list (item : Shape M)
  | textMap
  | record (model : M)
  deriving Repr

/-- What becomes of a field without value. -/
inductive Absence where
  | refused
  | dropped
  | filled (value : Json)
  deriving Repr

/-- A field of a record.  It is read under the first of its keys that is there, and written under
the first one. -/
structure FieldRule (M : Type) where
  key : String
  shape : Shape M
  absence : Absence
  otherKeys : List String := []
  deriving Repr

/-- The records of a schema: what they are called, their fields, and the rule that their normal form
has to satisfy besides, with the text that says so. -/
structure Catalog (M : Type) where
  name : M → String
  fields : M → List (FieldRule M)
  rule : M → List (String × Json) → Option String

/-! ## Lenient scalars -/

def isTrimmed (c : Char) : Bool := Text.isBlank c && !(28 ≤ c.toNat && c.toNat ≤ 31)

/-- Digits in which single underscores may stand. -/
def readUnderscored? (s : List Char) : Option Nat :=
  if s.all (fun c => c.isDigit || c == '_') then Text.readMagnitude? s else none

/-- The text before a point that only zeros follow, or the whole text. -/
def dropZeroFraction (s : List Char) : List Char :=
  match Text.cutAt '.' s with
  | (whole, some fraction) => if fraction.all (· == '0') then whole else s
  | (_, none) => s

/-- A whole number in a text. -/
def readInteger (s : List Char) : Checked Int :=
  let s := Text.dropEndWhile isTrimmed (s.dropWhile isTrimmed)
  if s.length > Text.maxNumeralDigits then refuse .oversizedInteger
  else
    let value := match dropZeroFraction s with
      | '-' :: digits => (readUnderscored? digits).map fun n => -(n : Int)
      | '+' :: digits => (readUnderscored? digits).map Int.ofNat
      | digits => (readUnderscored? digits).map Int.ofNat
    match value with
    | some n => .ok n
    | none => refuse .unreadableInteger

/-- Words for a flag that is off and for one that is on. -/
def offWords : List String := ["0", "off", "f", "false", "n", "no"]

def onWords : List String := ["1", "on", "t", "true", "y", "yes"]

/-- A flag in a text, in letters of any case. -/
def readFlag (s : String) : Checked Bool :=
  let word := String.ofList (s.toList.map Char.toLower)
  if word ∈ onWords then .ok true
  else if word ∈ offWords then .ok false
  else refuse .unreadableFlag

def asText : Json → Checked String
  | .string s => .ok s
  | .broken _ => refuse .brokenText
  | _ => refuse .noText

def asInteger : Json → Checked Int
  | .int n => .ok n
  | .bool b => .ok (if b then 1 else 0)
  | .string s => readInteger s.toList
  | .broken _ => refuse .unreadableInteger
  | _ => refuse .noInteger

def asFlag : Json → Checked Bool
  | .bool b => .ok b
  | .int n => if n = 1 then .ok true else if n = 0 then .ok false else refuse .unreadableFlag
  | .string s => readFlag s
  | .real x =>
    if x = .one then .ok true else if x.isZero then .ok false else refuse .unreadableFlag
  | .broken _ => refuse .unreadableFlag
  | _ => refuse .noFlag

def asWord (words : List String) : Json → Checked String
  | .string s => if s ∈ words then .ok s else refuse (.noneOf words)
  | _ => refuse (.noneOf words)

/-- Reads a value that is not a container of the shape's kind. -/
def normaliseScalar {M : Type} (name : M → String) (value : Json) : Shape M → Checked Json
  | .text => (asText value).map .string
  | .nonemptyText => do
    let s ← asText value
    if s = "" then refuse .emptyText else .ok (.string s)
  | .flag => (asFlag value).map .bool
  | .integer => (asInteger value).map .int
  | .oneOf words => (asWord words value).map .string
  | .list _ => refuse .noList
  | .textMap => refuse .noMap
  | .record model => refuse (.noRecord (name model))

/-! ## Normal forms -/

/-- A value with its normal form under every shape. -/
abbrev Reading (M : Type) := Json × (Shape M → Checked Json)

/-- The results of a list, each below its index. -/
def indexed {α : Type} (first : Nat) : List (Checked α) → List (Checked α)
  | [] => []
  | result :: rest => under (toString first) result :: indexed (first + 1) rest

/-- The key under which a field is given, with its reading. -/
def FieldRule.find? {M : Type} (field : FieldRule M) (members : List (String × Reading M)) :
    Option (String × Reading M) :=
  (field.key :: field.otherKeys).findSome? fun key =>
    (members.lookup key).map fun reading => (key, reading)

/-- The normal form of a field, if it has one. -/
def FieldRule.normalise {M : Type} (field : FieldRule M) (members : List (String × Reading M)) :
    Checked (Option (String × Json)) :=
  match field.find? members with
  | none =>
    match field.absence with
    | .refused => under field.key (refuse .missing)
    | .dropped => .ok none
    | .filled value => .ok (some (field.key, value))
  | some (key, value, normal) =>
    match field.absence, value with
    | .dropped, .null => .ok none
    | _, _ => (under key (normal field.shape)).map fun v => some (field.key, v)

variable {M : Type}

/-- The normal form of a record from the readings of its members. -/
def normaliseRecord (c : Catalog M) (model : M) (members : List (String × Reading M)) :
    Checked Json := do
  let fields ← gather ((c.fields model).map (·.normalise members))
  let present := fields.filterMap id
  match c.rule model present with
  | some text => refuse (.rule text)
  | none => .ok (.object present)

/-- The normal form of a map to texts. -/
def normaliseMap (members : List (String × Json)) : Checked Json :=
  (gather (members.map fun (key, value) =>
    under key ((asText value).map fun s => (key, Json.string s)))).map .object

mutual

/-- The normal form of a value under a shape. -/
def normalise (c : Catalog M) : Json → Shape M → Checked Json
  | .array items, .list shape =>
    (gather (indexed 0 ((readings c items).map fun (_, normal) => normal shape))).map .array
  | .object members, .record model => normaliseRecord c model (memberReadings c members)
  | .object members, .textMap => normaliseMap members
  | .array _, shape => normaliseScalar c.name (.array []) shape
  | .object _, shape => normaliseScalar c.name (.object []) shape
  | .null, shape => normaliseScalar c.name .null shape
  | .bool b, shape => normaliseScalar c.name (.bool b) shape
  | .int n, shape => normaliseScalar c.name (.int n) shape
  | .real x, shape => normaliseScalar c.name (.real x) shape
  | .string s, shape => normaliseScalar c.name (.string s) shape
  | .broken s, shape => normaliseScalar c.name (.broken s) shape

def readings (c : Catalog M) : List Json → List (Reading M)
  | [] => []
  | item :: items => (item, normalise c item) :: readings c items

def memberReadings (c : Catalog M) : List (String × Json) → List (String × Reading M)
  | [] => []
  | (key, value) :: members => (key, value, normalise c value) :: memberReadings c members

end

/-- A value that does not fit the schema: what it is meant to be, and the issues. -/
structure Rejection where
  subject : String
  issues : List String
  deriving DecidableEq, Repr

def Rejection.message (r : Rejection) : String :=
  s!"{r.subject} validation failed:\n" ++
    String.intercalate "\n" (r.issues.map fun issue => "  - " ++ issue)

/-- The normal form of a value that is meant to be a record. -/
def validate (c : Catalog M) (model : M) (subject : String) (value : Json) :
    Except Rejection Json :=
  (normalise c value (.record model)).mapError fun issues => ⟨subject, issues.map Issue.text⟩

end Courier.Schema
