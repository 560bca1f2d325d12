import Courier.Request.Basic
import Courier.Text.Indent
import Courier.Text.Numeral

/-!
# Reading requests

A request is read from the sections of its document.  Each part of the request has its slot: of the
metadata, the method, a script and the documentation the last section counts, headers and parameters
are collected from all their sections, and a body or authentication of a known kind wins over one of
no kind.  A document without metadata, method or address is refused.
-/

namespace Courier

open Text (trim blockText readInteger?)

/-- What a document lacks. -/
inductive RequestFault where
  | invalidMetadata
  | missingMetadata
  | missingMethod
  | missingUrl
  deriving DecidableEq, Repr

namespace RequestFault

/-- The part of the document that is at fault. -/
def construct : RequestFault → String
  | .invalidMetadata | .missingMetadata => "metadata"
  | .missingMethod => "method"
  | .missingUrl => "url"

def message : RequestFault → String
  | .invalidMetadata => "Invalid metadata (meta) section: name and type are required"
  | .missingMetadata => "Invalid Bruno file: missing metadata (meta) section"
  | .missingMethod => "Invalid Bruno file: missing HTTP method section"
  | .missingUrl => "Invalid Bruno file: missing URL in method section"

end RequestFault

namespace Request

/-- The last number among the values of the key `seq`. -/
def lastSeq? (pairs : List Pair) : Option Int :=
  (pairs.filterMap fun p =>
    if p.key = "seq" then readInteger? p.value.toList else none).getLast?

/-- Reads a metadata section, which has to give a name and a type. -/
def readMetadata (lines : List Line) : Except RequestFault Metadata :=
  let pairs := Pair.ofLines lines
  let name := (Pair.last? "name" pairs).getD ""
  let type := (Pair.last? "type" pairs).getD ""
  if name = "" ∨ type = "" then .error .invalidMetadata
  else .ok ⟨name, type, lastSeq? pairs⟩

/-- The text of a section, without its indentation. -/
def readText (lines : List Line) : String := String.ofList (blockText lines)

/-- The path in a value of the form `@file(path)`. -/
def filePath? (value : List Char) : Option (List Char) :=
  if "@file(".toList.isPrefixOf value && value.getLast? = some ')' &&
      !value.contains '\n' then
    some (trim (value.drop 6).dropLast)
  else none

/-- A pair of a form section as a form entry. -/
def readEntry (p : Pair) : FormEntry :=
  match filePath? p.value.toList with
  | some path => ⟨p.key, String.ofList path, .file, p.enabled⟩
  | none => ⟨p.key, p.value, .text, p.enabled⟩

def readForm (lines : List Line) : List FormEntry := (Pair.ofLines lines).map readEntry

/-- Reads a body section.  Forms keep their text beside their entries. -/
def readBody (s : Section) : Body :=
  let mode := Section.variantIn BodyMode.variants .other .none s.name
  let form := match mode with
    | .formUrlencoded | .multipart => some (readForm s.lines)
    | _ => none
  ⟨mode, readText s.lines, form⟩

/-- Where the key of an `apikey` authentication is placed. -/
def readPlacement (value : String) : String :=
  if value = "query" ∨ value = "queryparams" then "query" else "header"

/-- Reads an authentication section. -/
def readAuth (s : Section) : Auth :=
  let pairs := Pair.ofLines s.lines
  let value (key : String) : String := (Pair.last? key pairs).getD ""
  match Section.variantIn AuthType.variants .none .none s.name with
  | .basic => ⟨.basic, [("username", value "username"), ("password", value "password")]⟩
  | .bearer => ⟨.bearer, [("token", value "token")]⟩
  | .apikey =>
    let placement := (Pair.last? "placement" pairs <|> Pair.last? "in" pairs).getD "header"
    ⟨.apikey,
      [("key", value "key"), ("value", value "value"), ("placement", readPlacement placement)]⟩
  | .none => ⟨.none, []⟩

/-- The last value that is not blank in the sense of `isNone`, or else the first value. -/
def choose {α : Type} (isNone : α → Bool) (values : List α) : Option α :=
  values.foldl (fun chosen v => if !isNone v || chosen.isNone then some v else chosen) none

/-- The sections of a kind. -/
def sectionsOf (kind : Section.Kind) (sections : List Section) : List Section :=
  sections.filter (·.kind = kind)

/-- The pairs of all sections of a kind. -/
def collectPairs (kind : Section.Kind) (sections : List Section) : List Pair :=
  (sectionsOf kind sections).flatMap fun s => Pair.ofLines s.lines

/-- The text of the last section that satisfies a condition. -/
def lastText? (p : Section → Bool) (sections : List Section) : Option String :=
  ((sections.filter p).getLast?).map fun s => readText s.lines

/-- The test script.  What runs after the response comes before the tests. -/
def readTestScript (sections : List Section) : Option String :=
  let tests := sectionsOf .testScript sections
  let first := lastText? (·.name = "script:post-response") tests
  let second := lastText? (·.name ≠ "script:post-response") tests
  match first, second with
  | some a, some b => some (a ++ "\n" ++ b)
  | some a, none => some a
  | none, b => b

/-- The method with the pairs of the last method section. -/
def readMethod? (sections : List Section) : Option (Method × List Pair) := do
  let s ← (sectionsOf .method sections).getLast?
  let method ← Method.ofVerb? s.name
  return (method, Pair.ofLines s.lines)

/-- Reads a request from its sections.  The method section can switch off the body and the
authentication. -/
def ofSections (sections : List Section) : Except RequestFault Request := do
  let found ← (sectionsOf .metadata sections).mapM fun s => readMetadata s.lines
  let some metadata := found.getLast? | throw .missingMetadata
  let some (method, pairs) := readMethod? sections | throw .missingMethod
  let url := (Pair.last? "url" pairs).getD ""
  if url = "" then throw .missingUrl
  let body := choose (·.mode = .none) ((sectionsOf .body sections).map readBody)
  let auth := choose (·.type = .none) ((sectionsOf .auth sections).map readAuth)
  let bodyWord := Pair.last? "body" pairs
  let authWord := Pair.last? "auth" pairs
  return {
    metadata, method, url
    headers := collectPairs .headers sections
    queryParams := collectPairs .queryParams sections
    pathParams := collectPairs .pathParams sections
    body := if bodyWord = some "none" then none else body
    auth := if authWord = some "none" ∨ authWord = some "inherit" then none else auth
    preScript := lastText? (·.kind = .preScript) sections
    testScript := readTestScript sections
    docs := lastText? (·.kind = .docs) sections }

/-- Reads a request from the text of its document. -/
def ofText (text : List Char) : Except RequestFault Request := ofSections (Section.scan text)

/-! ## Notes -/

/-- What is noted about values of `seq` that are no numbers. -/
def seqNotices (lines : List Line) : List String :=
  (Pair.ofLines lines).filterMap fun p =>
    if p.key = "seq" ∧ readInteger? p.value.toList = none then
      some s!"Ignoring non-numeric seq '{p.value}' in meta section."
    else none

/-- What is noted while sections are read, up to one that is refused. -/
def sectionNotices : List Section → List String
  | [] => []
  | s :: rest =>
    match s.kind with
    | .metadata =>
      seqNotices s.lines ++
        match readMetadata s.lines with
        | .ok _ => sectionNotices rest
        | .error _ => []
    | .none => s!"Ignoring unsupported section '{s.name}'." :: sectionNotices rest
    | _ => sectionNotices rest

/-- What is noted while a document is read. -/
def notices (text : List Char) : List String :=
  (Section.notice? text).toList ++ sectionNotices (Section.scan text)

/-! ## Folders -/

/-- What the document of a folder says about it. -/
structure FolderInfo where
  name : Option String
  seq : Option Int
  deriving DecidableEq, Repr

/-- Reads the metadata of a folder, of which every part may be missing. -/
def readFolder (text : List Char) : FolderInfo :=
  let pairs := ((Section.scan text).filter (·.name = "meta")).flatMap fun s => Pair.ofLines s.lines
  ⟨Pair.last? "name" (pairs.filter (·.value ≠ "")), lastSeq? pairs⟩

end Request

end Courier
