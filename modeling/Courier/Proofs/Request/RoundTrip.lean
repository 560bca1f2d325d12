import Courier.Proofs.Request.Printer
import Courier.Request.Document
import Mathlib.Tactic.Common

/-!
# Requests read from the documents they were written to

`Request.ofText_print` says that a request that can be written is read from its document again, up
to the order of its credentials.  Each part of a request is read by its own lemma, and
`sectionsOf_toSections` says which of the sections of a document the part is read from.
-/

namespace Courier

open Text (trim isBlank isIndent isLineBreak splitOn joinWith blockText)

/-! ## Texts and forms -/

theorem newline_not_mem {line : Line} (h : ∀ c ∈ line, isLineBreak c = false) : '\n' ∉ line := by
  intro hmem
  exact absurd (h '\n' hmem) (by decide)

/-- A text is read from the lines of its section. -/
theorem PrintableText.readText {text : String} (h : PrintableText text) :
    Request.readText (indented (splitOn '\n' text.toList)) = text := by
  have hlines : ∀ line ∈ splitOn '\n' text.toList, '\n' ∉ line :=
    fun line hline => newline_not_mem (h.lines_breaks line hline)
  rw [Request.readText, indented, Text.blockText_map_append (by decide) hlines,
    Text.blockText_splitOn h.first h.last h.void h.margin, String.ofList_toList]

/-- The text of written pairs is their lines. -/
theorem readText_pairs {pairs : List Pair} (h : ∀ p ∈ pairs, p.Printable) :
    Request.readText (indented (pairs.map Pair.line)) =
      String.ofList (joinWith ['\n'] (pairs.map Pair.line)) := by
  have hlines : ∀ line ∈ pairs.map Pair.line, '\n' ∉ line := by
    intro line hline
    obtain ⟨p, hp, rfl⟩ := List.mem_map.1 hline
    exact newline_not_mem (h p hp).line_breaks
  have hflush : ∀ line ∈ pairs.map Pair.line, ∃ c, line.head? = some c ∧ isIndent c = false := by
    intro line hline
    obtain ⟨p, hp, rfl⟩ := List.mem_map.1 hline
    exact (h p hp).head?_line
  rw [Request.readText, indented, Text.blockText_map_append (by decide) hlines,
    Text.blockText_of_flush hlines hflush]

/-- A form entry is read from its pair. -/
theorem FormEntry.Printable.readEntry {e : FormEntry} (h : e.Printable) :
    Request.readEntry e.pair = e := by
  obtain ⟨hpair, htext, hfile⟩ := h
  rcases e with ⟨key, value, _ | _, enabled⟩
  · have hnone : Request.filePath? value.toList = none := htext rfl
    simp only [FormEntry.pair, Request.readEntry, hnone]
  · have htrim : trim value.toList = value.toList := hfile rfl
    have hbreaks : ∀ c ∈ ("@file(" ++ value ++ ")").toList, isLineBreak c = false :=
      hpair.value_breaks
    have hpath : Request.filePath? ("@file(" ++ value ++ ")").toList = some value.toList := by
      have hchars : ("@file(" ++ value ++ ")").toList =
          "@file(".toList ++ (value.toList ++ [')']) := by simp
      rw [hchars] at hbreaks ⊢
      have hnewline := newline_not_mem hbreaks
      have hlast : ("@file(".toList ++ (value.toList ++ [')'])).getLast? = some ')' := by
        rw [← List.append_assoc, List.getLast?_concat]
      rw [Request.filePath?, if_pos]
      · rw [List.drop_left' (by decide), List.dropLast_concat, htrim]
      · simp only [hlast, Bool.and_eq_true, decide_true, Bool.not_eq_true', and_true]
        exact ⟨List.isPrefixOf_iff_prefix.2 (List.prefix_append _ _), by simpa using hnewline⟩
    simp only [FormEntry.pair, Request.readEntry, hpath, String.ofList_toList]

theorem readForm_pairs {entries : List FormEntry} (h : ∀ e ∈ entries, e.Printable) :
    Request.readForm (indented ((entries.map FormEntry.pair).map Pair.line)) = entries := by
  have hpairs : ∀ p ∈ entries.map FormEntry.pair, p.Printable := by
    intro p hp
    obtain ⟨e, he, rfl⟩ := List.mem_map.1 hp
    exact (h e he).pair
  rw [Request.readForm, indented, Pair.ofLines_lines hpairs (by decide), List.map_map]
  exact (List.map_congr_left fun e he => (h e he).readEntry).trans (List.map_id entries)

theorem variantIn_mode (mode : BodyMode) :
    Section.variantIn BodyMode.variants .other .none ("body:" ++ mode.name) = mode := by
  cases mode <;> decide

/-- A body is read from its section. -/
theorem Body.Printable.readBody {b : Body} (h : b.Printable) :
    Request.readBody b.toSection = b := by
  rcases b with ⟨mode, content, _ | entries⟩
  · obtain ⟨hform, hmultipart, htext⟩ : mode ≠ .formUrlencoded ∧ mode ≠ .multipart ∧
        PrintableText content := h
    simp only [Request.readBody, Body.toSection, textSection, variantIn_mode, htext.readText]
  · obtain ⟨hmode, hentries, hcontent⟩ :
        (mode = .formUrlencoded ∨ mode = .multipart) ∧ (∀ e ∈ entries, e.Printable) ∧
          content.toList = joinWith ['\n'] (entries.map fun e => e.pair.line) := h
    have hpairs : ∀ p ∈ entries.map FormEntry.pair, p.Printable := by
      intro p hp
      obtain ⟨e, he, rfl⟩ := List.mem_map.1 hp
      exact (hentries e he).pair
    have htext : String.ofList (joinWith ['\n'] ((entries.map FormEntry.pair).map Pair.line)) =
        content := by
      rw [List.map_map]
      exact (congrArg String.ofList hcontent.symm).trans (String.ofList_toList)
    simp only [Request.readBody, Body.toSection, pairSection, variantIn_mode,
      readText_pairs hpairs, readForm_pairs hentries, htext]
    rcases hmode with rfl | rfl <;> rfl

/-! ## Authentication -/

/-- Among pairs of different keys, every pair gives the value of its key. -/
theorem last?_of_mem {pairs : List Pair} (hkeys : (pairs.map Pair.key).Nodup) {p : Pair}
    (hp : p ∈ pairs) : Pair.last? p.key pairs = some p.value := by
  have hrev : (pairs.reverse.map Pair.key).Nodup := by
    rw [List.map_reverse]
    exact (List.reverse_perm _).nodup_iff.2 hkeys
  rw [Pair.last?]
  have hmem := List.mem_reverse.2 hp
  generalize pairs.reverse = items at hrev hmem
  induction items with
  | nil => simp at hmem
  | cons q items ih =>
    rw [List.map_cons, List.nodup_cons] at hrev
    rcases List.mem_cons.1 hmem with rfl | hmem
    · rw [List.find?_cons_of_pos (by simp), Option.map_some]
    · have hne : q.key ≠ p.key := fun heq => hrev.1 (heq ▸ List.mem_map_of_mem hmem)
      rw [List.find?_cons_of_neg (by simpa using hne)]
      exact ih hrev.2 hmem

theorem variantIn_type (type : AuthType) :
    Section.variantIn AuthType.variants .none .none ("auth:" ++ type.name) = type := by
  cases type <;> decide

theorem AuthType.nodup_keys (type : AuthType) : type.keys.Nodup := by
  cases type <;> decide

/-- The credentials are the values that the written pairs have for the names of the credentials. -/
theorem Auth.Printable.credentials_perm {a : Auth} (h : a.Printable) :
    a.credentials.Perm
      (a.type.keys.map fun key => (key, (Pair.last? key a.pairs).getD "")) := by
  have hkeys : a.pairs.map Pair.key = a.credentials.map Prod.fst := by
    rw [Auth.pairs, List.map_map]
    rfl
  have hnodup : (a.pairs.map Pair.key).Nodup := by
    rw [hkeys]
    exact h.keys.nodup_iff.2 a.type.nodup_keys
  have hself : a.credentials = (a.credentials.map Prod.fst).map fun key =>
      (key, (Pair.last? key a.pairs).getD "") := by
    rw [List.map_map]
    refine (List.map_id a.credentials).symm.trans (List.map_congr_left fun credential hmem => ?_)
    have hpair : (⟨credential.1, credential.2, true⟩ : Pair) ∈ a.pairs :=
      List.mem_map.2 ⟨credential, hmem, rfl⟩
    have hlast := last?_of_mem hnodup hpair
    rw [id, Function.comp_apply, hlast]
    rfl
  have hperm := h.keys.map fun key => (key, (Pair.last? key a.pairs).getD "")
  rwa [← hself] at hperm

/-- An authentication is read from its section. -/
theorem Auth.Printable.readAuth {a : Auth} (h : a.Printable) :
    Auth.Same a (Request.readAuth a.toSection) := by
  have hperm := h.credentials_perm
  have hlines : Pair.ofLines a.toSection.lines = a.pairs :=
    Pair.ofLines_lines h.pairs (by decide)
  have hvariant : Section.variantIn AuthType.variants .none .none a.toSection.name = a.type :=
    variantIn_type a.type
  rw [Request.readAuth, hlines, hvariant]
  cases htype : a.type with
  | none => exact ⟨htype, by rwa [htype] at hperm⟩
  | basic => exact ⟨htype, by rwa [htype] at hperm⟩
  | bearer => exact ⟨htype, by rwa [htype] at hperm⟩
  | apikey =>
    rw [htype] at hperm
    have hmem : ("placement", (Pair.last? "placement" a.pairs).getD "") ∈ a.credentials :=
      hperm.mem_iff.2 (by simp [AuthType.keys])
    have hvalue := h.placement _ hmem
    have hread : Request.readPlacement
        ((Pair.last? "placement" a.pairs <|> Pair.last? "in" a.pairs).getD "header") =
          (Pair.last? "placement" a.pairs).getD "" := by
      rcases hlast : Pair.last? "placement" a.pairs with _ | placement <;> rw [hlast] at hvalue
      · exact absurd hvalue (by decide)
      · have hcases : placement = "header" ∨ placement = "query" := hvalue rfl
        change Request.readPlacement placement = placement
        rcases hcases with rfl | rfl <;> decide
    refine ⟨htype, ?_⟩
    simp only [hread]
    exact hperm

/-! ## Metadata and method -/

/-- Metadata is read from its section. -/
theorem Request.Printable.readMetadata {r : Request} (h : r.Printable) :
    Request.readMetadata (indented (r.metadata.pairs.map Pair.line)) = .ok r.metadata := by
  have hseq := h.seq
  have hname := h.name_ne
  have htype := h.type_ne
  have hlines := Pair.ofLines_lines h.metadata_pairs
    (by decide : ∀ c ∈ "  ".toList, isBlank c = true)
  rcases hm : r.metadata with ⟨name, type, _ | n⟩ <;> rw [hm] at hlines hname htype hseq
  · rw [Request.readMetadata, indented, hlines]
    have hlast : Request.lastSeq? (Metadata.pairs ⟨name, type, none⟩) = none := by
      simp [Request.lastSeq?, Metadata.pairs]
    rw [hlast]
    simp [Metadata.pairs, Pair.last?, hname, htype]
  · rw [Request.readMetadata, indented, hlines]
    have hread : Text.readInteger? (toString n).toList = some n :=
      Text.readInteger?_toString (hseq n rfl)
    have hlast : Request.lastSeq? (Metadata.pairs ⟨name, type, some n⟩) = some n := by
      simpa [Request.lastSeq?, Metadata.pairs] using hread
    rw [hlast]
    simp [Metadata.pairs, Pair.last?, hname, htype]

/-- The method and its pairs are read from the last section of a method. -/
theorem readMethod?_verb (method : Method) {pairs : List Pair} (h : ∀ p ∈ pairs, p.Printable)
    {sections : List Section}
    (hsections : Request.sectionsOf .method sections = [pairSection method.verb pairs]) :
    Request.readMethod? sections = some (method, pairs) := by
  have hlines : Pair.ofLines (pairSection method.verb pairs).lines = pairs :=
    Pair.ofLines_lines h (by decide)
  have hverb : Method.ofVerb? (pairSection method.verb pairs).name = some method :=
    Method.ofVerb?_verb method
  rw [Request.readMethod?, hsections]
  simp [hverb, hlines]

/-! ## The sections of a document -/

open Request (sectionsOf)

theorem sectionsOf_append (kind : Section.Kind) (first second : List Section) :
    sectionsOf kind (first ++ second) = sectionsOf kind first ++ sectionsOf kind second :=
  List.filter_append first second

/-- Of sections of one kind, all or none are of a given kind. -/
theorem sectionsOf_of_kind {kind own : Section.Kind} {sections : List Section}
    (h : ∀ s ∈ sections, s.kind = own) :
    sectionsOf kind sections = if own = kind then sections else [] := by
  split_ifs with heq
  · refine List.filter_eq_self.2 fun s hs => ?_
    rw [h s hs, heq]
    simp
  · refine List.filter_eq_nil_iff.2 fun s hs => ?_
    rw [h s hs]
    simpa using heq

theorem kind_pairSection (name : String) (pairs : List Pair) :
    (pairSection name pairs).kind = Section.kindOf name := rfl

/-- The kinds of the sections with fixed names. -/
theorem kindOf_fixed :
    Section.kindOf "meta" = .metadata ∧ Section.kindOf "headers" = .headers ∧
      Section.kindOf "params:query" = .queryParams ∧ Section.kindOf "params:path" = .pathParams ∧
      Section.kindOf "script:pre-request" = .preScript ∧ Section.kindOf "tests" = .testScript ∧
      Section.kindOf "docs" = .docs := by
  decide

theorem kind_verb (method : Method) : Section.kindOf method.verb = .method := by
  cases method <;> decide

theorem Body.kind_toSection (b : Body) : b.toSection.kind = .body := by
  have hname : b.toSection.name = "body:" ++ b.mode.name := by
    rw [Body.toSection]
    split <;> rfl
  rw [Section.kind, hname]
  cases b.mode <;> decide

theorem Auth.kind_toSection (a : Auth) : a.toSection.kind = .auth := by
  change Section.kindOf ("auth:" ++ a.type.name) = .auth
  cases a.type <;> decide

/-- Every kind of section that a request is read from has the section that was written for it. -/
theorem Request.sectionsOf_toSections (r : Request) (kind : Section.Kind) :
    sectionsOf kind r.toSections =
      match kind with
      | .metadata => [pairSection "meta" r.metadata.pairs]
      | .method => [pairSection r.method.verb [⟨"url", r.url, true⟩]]
      | .headers => [pairSection "headers" r.headers]
      | .queryParams => [pairSection "params:query" r.queryParams]
      | .pathParams => [pairSection "params:path" r.pathParams]
      | .body => r.body.toList.map Body.toSection
      | .auth => r.auth.toList.map Auth.toSection
      | .preScript => r.preScript.toList.map (textSection "script:pre-request")
      | .testScript => r.testScript.toList.map (textSection "tests")
      | .docs => r.docs.toList.map (textSection "docs")
      | .none => [] := by
  have hbody : ∀ s ∈ r.body.toList.map Body.toSection, s.kind = .body := by
    intro s hs
    obtain ⟨b, -, rfl⟩ := List.mem_map.1 hs
    exact b.kind_toSection
  have hauth : ∀ s ∈ r.auth.toList.map Auth.toSection, s.kind = .auth := by
    intro s hs
    obtain ⟨a, -, rfl⟩ := List.mem_map.1 hs
    exact a.kind_toSection
  have htext : ∀ (name : String) (text : Option String),
      ∀ s ∈ text.toList.map (textSection name), s.kind = Section.kindOf name := by
    intro name text s hs
    obtain ⟨t, -, rfl⟩ := List.mem_map.1 hs
    rfl
  have hfixed : sectionsOf kind
      [pairSection "meta" r.metadata.pairs, pairSection r.method.verb [⟨"url", r.url, true⟩],
        pairSection "headers" r.headers, pairSection "params:query" r.queryParams,
        pairSection "params:path" r.pathParams] =
      match kind with
      | .metadata => [pairSection "meta" r.metadata.pairs]
      | .method => [pairSection r.method.verb [⟨"url", r.url, true⟩]]
      | .headers => [pairSection "headers" r.headers]
      | .queryParams => [pairSection "params:query" r.queryParams]
      | .pathParams => [pairSection "params:path" r.pathParams]
      | _ => [] := by
    have hmethod : (pairSection r.method.verb [⟨"url", r.url, true⟩]).kind = .method :=
      kind_verb r.method
    simp only [sectionsOf, List.filter_cons, List.filter_nil, hmethod, kind_pairSection,
      kindOf_fixed]
    cases kind <;> rfl
  rw [Request.toSections, sectionsOf_append, sectionsOf_append, sectionsOf_append,
    sectionsOf_append, sectionsOf_append, hfixed, sectionsOf_of_kind hbody,
    sectionsOf_of_kind hauth, sectionsOf_of_kind (htext "script:pre-request" r.preScript),
    sectionsOf_of_kind (htext "tests" r.testScript), sectionsOf_of_kind (htext "docs" r.docs)]
  simp only [kindOf_fixed]
  cases kind <;> simp

/-! ## The whole request -/

theorem choose_toList {α : Type} (isNone : α → Bool) (value : Option α) :
    Request.choose isNone value.toList = value := by
  cases value with
  | none => rfl
  | some v => simp [Request.choose]

theorem lastText?_toList {p : Section → Bool} {sections : List Section} {name : String}
    {text : Option String} (h : sections.filter p = text.toList.map (textSection name))
    (htext : ∀ s, text = some s → PrintableText s) : Request.lastText? p sections = text := by
  rw [Request.lastText?, h]
  cases text with
  | none => rfl
  | some s => exact congrArg some (htext s rfl).readText

/-- The test script is read from the section of the tests. -/
theorem Request.Printable.readTestScript {r : Request} (h : r.Printable) :
    Request.readTestScript r.toSections = r.testScript := by
  have htests := r.sectionsOf_toSections .testScript
  have hname : ∀ s ∈ r.testScript.toList.map (textSection "tests"), s.name = "tests" := by
    intro s hs
    obtain ⟨t, -, rfl⟩ := List.mem_map.1 hs
    rfl
  have hfirst : Request.lastText? (·.name = "script:post-response")
      (r.testScript.toList.map (textSection "tests")) = none := by
    have hfilter : (r.testScript.toList.map (textSection "tests")).filter
        (·.name = "script:post-response") = [] := by
      refine List.filter_eq_nil_iff.2 fun s hs => ?_
      rw [hname s hs]
      decide
    rw [Request.lastText?, hfilter]
    rfl
  have hsecond : Request.lastText? (·.name ≠ "script:post-response")
      (r.testScript.toList.map (textSection "tests")) = r.testScript := by
    refine lastText?_toList (List.filter_eq_self.2 fun s hs => ?_) h.testScript
    rw [hname s hs]
    decide
  simp only [Request.readTestScript, htests, hfirst, hsecond]

/-- A request that can be written is read from its document again. -/
theorem Request.ofText_print {r : Request} (h : r.Printable) :
    ∃ r', Request.ofText r.print = .ok r' ∧ Request.Same r r' := by
  have hscan : Section.scan r.print = r.toSections := Section.scan_print h.toSections
  have hmethod : Request.readMethod? r.toSections =
      some (r.method, [⟨"url", r.url, true⟩]) :=
    readMethod?_verb r.method (by simpa using h.url) (r.sectionsOf_toSections .method)
  have hmetadata : (sectionsOf .metadata r.toSections).mapM
      (fun s => Request.readMetadata s.lines) = .ok [r.metadata] := by
    rw [r.sectionsOf_toSections .metadata, List.mapM_cons, List.mapM_nil]
    simp only [pairSection, h.readMetadata]
    rfl
  have hpairs : ∀ (kind : Section.Kind) (name : String) (pairs : List Pair),
      sectionsOf kind r.toSections = [pairSection name pairs] → (∀ p ∈ pairs, p.Printable) →
        Request.collectPairs kind r.toSections = pairs := by
    intro kind name pairs hsections hprintable
    rw [Request.collectPairs, hsections, List.flatMap_singleton]
    exact Pair.ofLines_lines hprintable (by decide)
  have hbody : (sectionsOf .body r.toSections).map Request.readBody = r.body.toList := by
    rw [r.sectionsOf_toSections .body, List.map_map]
    refine (List.map_congr_left fun b hb => ?_).trans (List.map_id r.body.toList)
    exact (h.body b (Option.mem_toList.1 hb)).readBody
  have hauth : (sectionsOf .auth r.toSections).map Request.readAuth =
      (r.auth.map fun a => Request.readAuth a.toSection).toList := by
    rw [r.sectionsOf_toSections .auth, List.map_map]
    cases r.auth <;> rfl
  have hheaders := hpairs .headers _ _ (r.sectionsOf_toSections .headers) h.headers
  have hquery := hpairs .queryParams _ _ (r.sectionsOf_toSections .queryParams) h.queryParams
  have hpath := hpairs .pathParams _ _ (r.sectionsOf_toSections .pathParams) h.pathParams
  have hscript : Request.lastText? (·.kind = .preScript) r.toSections = r.preScript :=
    lastText?_toList (r.sectionsOf_toSections .preScript) h.preScript
  have hdocs : Request.lastText? (·.kind = .docs) r.toSections = r.docs :=
    lastText?_toList (r.sectionsOf_toSections .docs) h.docs
  have hurl : Pair.last? "url" [⟨"url", r.url, true⟩] = some r.url := by simp [Pair.last?]
  have hbodyWord : Pair.last? "body" [⟨"url", r.url, true⟩] = none := by simp [Pair.last?]
  have hauthWord : Pair.last? "auth" [⟨"url", r.url, true⟩] = none := by simp [Pair.last?]
  refine ⟨{ r with auth := r.auth.map fun a => Request.readAuth a.toSection }, ?_, ?_⟩
  · rw [Request.ofText, hscan, Request.ofSections, hmetadata]
    simp only [hmethod, hbody, hauth, hheaders, hquery, hpath, hscript, hdocs, hurl, hbodyWord,
      hauthWord, choose_toList, h.readTestScript, Option.getD_some, h.url_ne]
    rfl
  · exact
      { metadata := rfl
        method := rfl
        url := rfl
        headers := rfl
        queryParams := rfl
        pathParams := rfl
        body := rfl
        auth := by
          rcases ha : r.auth with _ | a
          · exact .none
          · exact .some (h.auth a ha).readAuth
        preScript := rfl
        testScript := rfl
        docs := rfl }

/-- The document of a request with a header that is switched off, a file in a form, credentials in
an order of their own and a script with an empty line. -/
theorem Request.ofText_print_multipart :
    let r : Request := {
      metadata := ⟨"Send report", "http", some (-3)⟩
      method := .post
      url := "https://\x7b\x7bhost\x7d\x7d/reports"
      headers := [⟨"X-Trace", "", false⟩]
      queryParams := []
      pathParams := []
      body := some ⟨.multipart, "doc: @file(a b.txt)", some [⟨"doc", "a b.txt", .file, true⟩]⟩
      auth := some ⟨.apikey, [("value", "s:1"), ("placement", "query"), ("key", "k")]⟩
      preScript := some "if (x) \x7b\n\n  run();\n\x7d"
      testScript := none
      docs := some "" }
    ∃ r', Request.ofText r.print = .ok r' ∧ Request.Same r r' :=
  Request.ofText_print (by decide)

end Courier
