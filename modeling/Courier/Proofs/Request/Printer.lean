import Courier.Proofs.Section.Pair
import Courier.Proofs.Section.Printer
import Courier.Proofs.Text.Indent
import Courier.Proofs.Text.Numeral
import Courier.Request.Document
import Mathlib.Tactic.Common

/-!
# Documents written from requests

`Request.print` writes a request as a document.  Every part of the request has a section of its own,
and a part that is absent has none.  The lines of a section are indented by two spaces.

`Request.Printable` says which requests can be written in this way.  The conditions fall into three
groups.

* Pairs stand on one line each, with a key that ends at the first colon (`Pair.Printable`).
* Texts, which are scripts, documentation and the contents of most bodies, keep their lines: their
  braces are nested, and there is no indentation or empty line that a block would drop
  (`PrintableText`).
* Forms have the lines of their entries as content, and an entry that holds text does not look as
  if it named a file.  Credentials are the ones that their kind of authentication has.

`ofText_print` says that reading the document gives the request back.
-/

namespace Courier

open Text (trim isBlank isLineBreak isVoid margin splitOn joinWith blockText readInteger?)

/-! ## Writing -/

/-- Two spaces before every line. -/
def indented (lines : List Line) : List Line := lines.map ("  ".toList ++ ·)

/-- The section of a list of pairs. -/
def pairSection (name : String) (pairs : List Pair) : Section :=
  ⟨name, indented (pairs.map Pair.line)⟩

/-- The section of a text. -/
def textSection (name : String) (text : String) : Section :=
  ⟨name, indented (splitOn '\n' text.toList)⟩

/-- The pairs of a metadata section. -/
def Metadata.pairs (m : Metadata) : List Pair :=
  [⟨"name", m.name, true⟩, ⟨"type", m.type, true⟩] ++
    m.seq.toList.map fun n => ⟨"seq", toString n, true⟩

/-- The pair of a form entry.  The path of a file stands in parentheses. -/
def FormEntry.pair (e : FormEntry) : Pair :=
  match e.type with
  | .text => ⟨e.key, e.value, e.enabled⟩
  | .file => ⟨e.key, "@file(" ++ e.value ++ ")", e.enabled⟩

/-- The section of a body.  A form is written entry by entry. -/
def Body.toSection (b : Body) : Section :=
  match b.form with
  | some entries => pairSection ("body:" ++ b.mode.name) (entries.map FormEntry.pair)
  | none => textSection ("body:" ++ b.mode.name) b.content

/-- The pairs of an authentication section. -/
def Auth.pairs (a : Auth) : List Pair := a.credentials.map fun (key, value) => ⟨key, value, true⟩

def Auth.toSection (a : Auth) : Section := pairSection ("auth:" ++ a.type.name) a.pairs

/-- The sections of a request, in the order in which they are written. -/
def Request.toSections (r : Request) : List Section :=
  [pairSection "meta" r.metadata.pairs,
    pairSection r.method.verb [⟨"url", r.url, true⟩],
    pairSection "headers" r.headers,
    pairSection "params:query" r.queryParams,
    pairSection "params:path" r.pathParams] ++
  (r.body.toList.map Body.toSection ++
  (r.auth.toList.map Auth.toSection ++
  (r.preScript.toList.map (textSection "script:pre-request") ++
  (r.testScript.toList.map (textSection "tests") ++
  r.docs.toList.map (textSection "docs")))))

/-- The document of a request. -/
def Request.print (r : Request) : List Char := Section.print r.toSections

/-! ## What can be written -/

/-- The text of a block that is written line by line. -/
@[mk_iff]
structure PrintableText (text : String) : Prop where
  breaks : ∀ c ∈ text.toList, isLineBreak c = true → c = '\n'
  first : text.toList.head? ≠ some '\n'
  last : text.toList.getLast? ≠ some '\n'
  void : ∀ line ∈ splitOn '\n' text.toList, isVoid line = true → line = []
  margin : margin (splitOn '\n' text.toList) = []
  nested : Section.Nested (splitOn '\n' text.toList)

instance : DecidablePred PrintableText := fun text => decidable_of_iff' _ (printableText_iff text)

/-- A form entry that is written as a pair.  A path is trimmed, and a text has not the form of a
path. -/
@[mk_iff]
structure FormEntry.Printable (e : FormEntry) : Prop where
  pair : e.pair.Printable
  text : e.type = .text → Request.filePath? e.value.toList = none
  file : e.type = .file → trim e.value.toList = e.value.toList

instance : DecidablePred FormEntry.Printable := fun e =>
  decidable_of_iff' _ (FormEntry.printable_iff e)

/-- A body that is a form has the lines of its entries as content. -/
def Body.Printable (b : Body) : Prop :=
  match b.form with
  | some entries =>
    (b.mode = .formUrlencoded ∨ b.mode = .multipart) ∧ (∀ e ∈ entries, e.Printable) ∧
      b.content.toList = joinWith ['\n'] (entries.map fun e => e.pair.line)
  | none => b.mode ≠ .formUrlencoded ∧ b.mode ≠ .multipart ∧ PrintableText b.content

instance : DecidablePred Body.Printable
  | ⟨mode, content, some entries⟩ => inferInstanceAs (Decidable (
      (mode = .formUrlencoded ∨ mode = .multipart) ∧ (∀ e ∈ entries, e.Printable) ∧
        content.toList = joinWith ['\n'] (entries.map fun e => e.pair.line)))
  | ⟨mode, content, none⟩ => inferInstanceAs (Decidable (
      mode ≠ .formUrlencoded ∧ mode ≠ .multipart ∧ PrintableText content))

/-- The names of the credentials of a kind of authentication. -/
def AuthType.keys : AuthType → List String
  | .none => []
  | .basic => ["username", "password"]
  | .bearer => ["token"]
  | .apikey => ["key", "value", "placement"]

/-- The authentication has the credentials of its kind, in any order. -/
@[mk_iff]
structure Auth.Printable (a : Auth) : Prop where
  keys : (a.credentials.map Prod.fst).Perm a.type.keys
  pairs : ∀ p ∈ a.pairs, p.Printable
  placement : ∀ credential ∈ a.credentials, credential.1 = "placement" →
    credential.2 = "header" ∨ credential.2 = "query"

instance : DecidablePred Auth.Printable := fun a => decidable_of_iff' _ (Auth.printable_iff a)

/-- The request can be written so that it can be read. -/
@[mk_iff]
structure Request.Printable (r : Request) : Prop where
  name_ne : r.metadata.name ≠ ""
  name : Pair.Printable ⟨"name", r.metadata.name, true⟩
  type_ne : r.metadata.type ≠ ""
  type : Pair.Printable ⟨"type", r.metadata.type, true⟩
  seq : ∀ n ∈ r.metadata.seq, (Nat.toDigits 10 n.natAbs).length ≤ Text.maxNumeralDigits
  url_ne : r.url ≠ ""
  url : Pair.Printable ⟨"url", r.url, true⟩
  headers : ∀ p ∈ r.headers, p.Printable
  queryParams : ∀ p ∈ r.queryParams, p.Printable
  pathParams : ∀ p ∈ r.pathParams, p.Printable
  body : ∀ b ∈ r.body, b.Printable
  auth : ∀ a ∈ r.auth, a.Printable
  preScript : ∀ s ∈ r.preScript, PrintableText s
  testScript : ∀ s ∈ r.testScript, PrintableText s
  docs : ∀ s ∈ r.docs, PrintableText s

instance : DecidablePred Request.Printable := fun r =>
  decidable_of_iff' _ (Request.printable_iff r)

/-! ## What is read again -/

/-- The two authentications are the same, except that their credentials may stand in different
orders. -/
structure Auth.Same (a b : Auth) : Prop where
  type : a.type = b.type
  credentials : a.credentials.Perm b.credentials

/-- The two requests are the same, up to the order of credentials. -/
structure Request.Same (r r' : Request) : Prop where
  metadata : r.metadata = r'.metadata
  method : r.method = r'.method
  url : r.url = r'.url
  headers : r.headers = r'.headers
  queryParams : r.queryParams = r'.queryParams
  pathParams : r.pathParams = r'.pathParams
  body : r.body = r'.body
  auth : Option.Rel Auth.Same r.auth r'.auth
  preScript : r.preScript = r'.preScript
  testScript : r.testScript = r'.testScript
  docs : r.docs = r'.docs

/-! ## Sections that can be written -/

/-- The name of a section that can be written. -/
def IsSectionName (name : String) : Prop :=
  name ≠ "" ∧ trim name.toList = name.toList ∧ ¬ "//".toList <+: name.toList ∧
    ∀ c ∈ name.toList, isLineBreak c = false

instance : DecidablePred IsSectionName := fun name => inferInstanceAs (Decidable
  (name ≠ "" ∧ trim name.toList = name.toList ∧ ¬ "//".toList <+: name.toList ∧
    ∀ c ∈ name.toList, isLineBreak c = false))

theorem printable_indented {name : String} {lines : List Line} (hname : IsSectionName name)
    (hbreaks : ∀ line ∈ lines, ∀ c ∈ line, isLineBreak c = false) (hnested : Section.Nested lines) :
    Section.Printable ⟨name, indented lines⟩ where
  name_ne := hname.1
  name_trim := hname.2.1
  name_comment := hname.2.2.1
  name_breaks := hname.2.2.2
  breaks := by
    intro line hline c hc
    obtain ⟨line, hmem, rfl⟩ := List.mem_map.1 hline
    rcases List.mem_append.1 hc with hc | hc
    · exact (by decide : ∀ x ∈ "  ".toList, isLineBreak x = false) c hc
    · exact hbreaks line hmem c hc
  nested := Section.nested_map_append (by decide) hnested

theorem printable_pairSection {name : String} {pairs : List Pair} (hname : IsSectionName name)
    (hpairs : ∀ p ∈ pairs, p.Printable) : (pairSection name pairs).Printable := by
  refine printable_indented hname (fun line hline => ?_) (Section.nested_of_balanced ?_)
  · obtain ⟨p, hp, rfl⟩ := List.mem_map.1 hline
    exact (hpairs p hp).line_breaks
  · intro line hline
    obtain ⟨p, hp, rfl⟩ := List.mem_map.1 hline
    exact (hpairs p hp).balanced

theorem PrintableText.lines_breaks {text : String} (h : PrintableText text) :
    ∀ line ∈ splitOn '\n' text.toList, ∀ c ∈ line, isLineBreak c = false := by
  intro line hline c hc
  by_contra hbreak
  have hnewline := h.breaks c ((Text.infix_of_mem_splitOn hline).subset hc) (by simpa using hbreak)
  rw [hnewline] at hc
  exact Text.not_mem_of_mem_splitOn hline hc

theorem printable_textSection {name text : String} (hname : IsSectionName name)
    (htext : PrintableText text) : (textSection name text).Printable :=
  printable_indented hname htext.lines_breaks htext.nested

theorem Body.printable_toSection {b : Body} (h : b.Printable) : b.toSection.Printable := by
  have hname : IsSectionName ("body:" ++ b.mode.name) := by
    cases b.mode <;> decide
  rw [Body.Printable] at h
  rw [Body.toSection]
  rcases hform : b.form with _ | entries <;> rw [hform] at h
  · exact printable_textSection hname h.2.2
  · refine printable_pairSection hname fun p hp => ?_
    obtain ⟨e, he, rfl⟩ := List.mem_map.1 hp
    exact (h.2.1 e he).pair

theorem Auth.printable_toSection {a : Auth} (h : a.Printable) : a.toSection.Printable := by
  have hname : IsSectionName ("auth:" ++ a.type.name) := by
    cases a.type <;> decide
  exact printable_pairSection hname h.pairs

/-- The digits of a number stand on one line and hold no brace. -/
theorem printable_seq {n : Int} : Pair.Printable ⟨"seq", toString n, true⟩ where
  key := (by decide : Pair.IsKey "seq")
  value_trim := Text.trim_toString_int n
  value_breaks := fun c hc => Text.isLineBreak_of_not_isBlank (Text.isBlank_of_mem_toString_int hc)
  balanced := by
    have hbrace : ∀ c, c ≠ '-' → c.isDigit = false →
        (Pair.line ⟨"seq", toString n, true⟩).count c = "seq: ".toList.count c := by
      intro c hminus hdigit
      have hmem : c ∉ (toString n).toList := by
        intro hc
        rcases Text.mem_toString_int hc with hc | hc
        · exact hminus hc
        · rw [hdigit] at hc
          exact absurd hc (by decide)
      have hline : Pair.line ⟨"seq", toString n, true⟩ = "seq: ".toList ++ (toString n).toList := by
        simp [Pair.line]
      rw [hline, List.count_append, List.count_eq_zero_of_not_mem hmem, Nat.add_zero]
    rw [hbrace _ (by decide) (by decide), hbrace _ (by decide) (by decide)]
    decide

theorem Request.Printable.metadata_pairs {r : Request} (h : r.Printable) :
    ∀ p ∈ r.metadata.pairs, p.Printable := by
  intro p hp
  simp only [Metadata.pairs, List.cons_append, List.nil_append, List.mem_cons, List.mem_map] at hp
  rcases hp with rfl | rfl | ⟨n, -, rfl⟩
  · exact h.name
  · exact h.type
  · exact printable_seq

/-- Every section of a request can be written. -/
theorem Request.Printable.toSections {r : Request} (h : r.Printable) :
    ∀ s ∈ r.toSections, s.Printable := by
  have hverb : IsSectionName r.method.verb := by
    cases r.method <;> decide
  intro s hs
  simp only [Request.toSections, List.cons_append, List.nil_append, List.mem_cons,
    List.mem_append, List.mem_map, Option.mem_toList] at hs
  rcases hs with rfl | rfl | rfl | rfl | rfl | ⟨b, hb, rfl⟩ | ⟨a, ha, rfl⟩ | ⟨t, ht, rfl⟩ |
    ⟨t, ht, rfl⟩ | ⟨t, ht, rfl⟩
  · exact printable_pairSection (by decide) h.metadata_pairs
  · exact printable_pairSection hverb (by simpa using h.url)
  · exact printable_pairSection (by decide) h.headers
  · exact printable_pairSection (by decide) h.queryParams
  · exact printable_pairSection (by decide) h.pathParams
  · exact Body.printable_toSection (h.body b hb)
  · exact Auth.printable_toSection (h.auth a ha)
  · exact printable_textSection (by decide) (h.preScript t ht)
  · exact printable_textSection (by decide) (h.testScript t ht)
  · exact printable_textSection (by decide) (h.docs t ht)

end Courier
