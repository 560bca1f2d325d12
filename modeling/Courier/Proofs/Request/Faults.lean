import Courier.Proofs.Outcome
import Courier.Proofs.Request.Records
import Courier.Proofs.Section.Names
import Mathlib.Tactic.Common

/-!
# What a document may lack

A document has to name itself, its method and its address.  `LacksMetadata`, `LacksMethod` and
`LacksUrl` say of its sections that one of these is missing, and `Judged` puts them in the order in
which they are missed.  `judged_ofSections` follows the reading once through all its branches; all
of `ofText_outcome` is read off from it, together with `ofTextChecked_eq` for the records.
-/

namespace Courier.Request

open Outcome (exists_of_mem_mapM)
open Section (IsMethodOf verbs)

/-- There is no metadata section, or one of them gives no name or no type. -/
def LacksMetadata (sections : List Section) : Prop :=
  (∀ s ∈ sections, s.name ≠ "meta") ∨
    ∃ s ∈ sections, s.name = "meta" ∧ (¬ s.Provides "name" ∨ ¬ s.Provides "type")

/-- No section is named after a verb. -/
def LacksMethod (sections : List Section) : Prop := ∀ s ∈ sections, s.name ∉ verbs

/-- The last section of a verb gives no address. -/
def LacksUrl (sections : List Section) : Prop := ∃ s, IsMethodOf sections s ∧ ¬ s.Provides "url"

/-- The request names itself, its type and its address, and its method is that of the last section
of a verb, in capitals. -/
structure Complete (sections : List Section) (r : Request) : Prop where
  name_ne : r.metadata.name ≠ ""
  type_ne : r.metadata.type ≠ ""
  url_ne : r.url ≠ ""
  method : ∃ s, IsMethodOf sections s ∧ r.method.name = s.name.toUpper

/-- What becomes of a document, by the first construct that it lacks. -/
inductive Judged (sections : List Section) : Except RequestFault Request → Prop
  | metadata {fault : RequestFault} (h : LacksMetadata sections)
      (hfault : fault.construct = "metadata") : Judged sections (.error fault)
  | method (hmetadata : ¬ LacksMetadata sections) (h : LacksMethod sections) :
      Judged sections (.error .missingMethod)
  | url (hmetadata : ¬ LacksMetadata sections) (hmethod : ¬ LacksMethod sections)
      (h : LacksUrl sections) : Judged sections (.error .missingUrl)
  | request {r : Request} (hmetadata : ¬ LacksMetadata sections) (hmethod : ¬ LacksMethod sections)
      (hurl : ¬ LacksUrl sections) (h : Complete sections r) : Judged sections (.ok r)

variable {sections : List Section} {s : Section}

theorem readMetadata_of_lacks (h : ¬ s.Provides "name" ∨ ¬ s.Provides "type") :
    readMetadata s.lines = .error .invalidMetadata := by
  unfold readMetadata
  exact if_pos (h.imp Section.getD_last?_eq_iff.2 Section.getD_last?_eq_iff.2)

theorem readMetadata_of_provides (hname : s.Provides "name") (htype : s.Provides "type") :
    ∃ m, readMetadata s.lines = .ok m ∧ m.name ≠ "" ∧ m.type ≠ "" := by
  have hname' : (Pair.last? "name" (Pair.ofLines s.lines)).getD "" ≠ "" :=
    fun h => Section.getD_last?_eq_iff.1 h hname
  have htype' : (Pair.last? "type" (Pair.ofLines s.lines)).getD "" ≠ "" :=
    fun h => Section.getD_last?_eq_iff.1 h htype
  unfold readMetadata
  exact ⟨_, if_neg (not_or.2 ⟨hname', htype'⟩), hname', htype'⟩

theorem mem_sectionsOf_metadata :
    s ∈ sectionsOf .metadata sections ↔ s ∈ sections ∧ s.name = "meta" := by
  simp [sectionsOf, Section.kind_eq_metadata_iff]

/-- Unless metadata are missing, those of the last metadata section are found. -/
theorem exists_mapM_readMetadata (h : ¬ LacksMetadata sections) :
    ∃ found m, (sectionsOf .metadata sections).mapM (fun s => readMetadata s.lines) = .ok found ∧
      found.getLast? = some m ∧ m.name ≠ "" ∧ m.type ≠ "" := by
  simp only [LacksMetadata, not_or, not_exists, not_and, not_forall, not_not] at h
  obtain ⟨⟨s, hs, hname⟩, hgiven⟩ := h
  have hread : ∀ t ∈ sectionsOf .metadata sections,
      ∃ m, readMetadata t.lines = .ok m ∧ m.name ≠ "" ∧ m.type ≠ "" := by
    intro t ht
    obtain ⟨ht, htname⟩ := mem_sectionsOf_metadata.1 ht
    exact readMetadata_of_provides (hgiven t ht htname).1 (hgiven t ht htname).2
  obtain ⟨found, hfound, hlength⟩ :=
    Outcome.exists_mapM_eq_ok fun t ht => (hread t ht).imp fun _ hm => hm.1
  have hpos : 0 < found.length := by
    rw [hlength]
    exact List.length_pos_of_mem (mem_sectionsOf_metadata.2 ⟨hs, hname⟩)
  have hlast := List.getLast?_eq_some_getLast (List.ne_nil_of_length_pos hpos)
  obtain ⟨t, ht, hm⟩ := exists_of_mem_mapM hfound _ (List.mem_of_getLast? hlast)
  obtain ⟨m, hm', hname, htype⟩ := hread t ht
  rw [hm] at hm'
  cases hm'
  exact ⟨found, _, hfound, hlast, hname, htype⟩

/-- Where metadata are missing, there is no metadata section or one of them is refused. -/
theorem sectionsOf_or_mapM_of_lacks (h : LacksMetadata sections) :
    sectionsOf .metadata sections = [] ∨
      (sectionsOf .metadata sections).mapM (fun s => readMetadata s.lines) =
        .error .invalidMetadata := by
  rcases h with hnone | ⟨s, hs, hname, hlacks⟩
  · left
    rw [List.eq_nil_iff_forall_not_mem]
    intro t ht
    exact hnone t (mem_sectionsOf_metadata.1 ht).1 (mem_sectionsOf_metadata.1 ht).2
  · right
    refine Outcome.mapM_eq_error (fun t _ => ?_)
      ⟨s, mem_sectionsOf_metadata.2 ⟨hs, hname⟩, readMetadata_of_lacks hlacks⟩
    by_cases hgiven : t.Provides "name" ∧ t.Provides "type"
    · exact .inr ((readMetadata_of_provides hgiven.1 hgiven.2).imp fun _ hm => hm.1)
    · exact .inl (readMetadata_of_lacks (not_and_or.1 hgiven))

theorem name_eq_toUpper (method : Method) : method.name = method.verb.toUpper := by
  cases method <;> decide +kernel

/-- A request is read unless a construct is missing, and the first one that is missing is named. -/
theorem judged_ofSections (sections : List Section) : Judged sections (ofSections sections) := by
  unfold ofSections
  -- Metadata are read from all their sections before anything else is looked at.
  by_cases hmetadata : LacksMetadata sections
  · rcases sectionsOf_or_mapM_of_lacks hmetadata with hnone | hfault
    · rw [hnone]
      exact .metadata hmetadata rfl
    · rw [hfault]
      exact .metadata hmetadata rfl
  obtain ⟨found, m, hfound, hlast, hname, htype⟩ := exists_mapM_readMetadata hmetadata
  simp only [hfound, bind, Except.bind, hlast]
  rcases hread : readMethod? sections with _ | ⟨method, pairs⟩
  · exact .method hmetadata (readMethod?_eq_none_iff.1 hread)
  obtain ⟨s, hs, hverb, rfl⟩ := readMethod?_eq_some_iff.1 hread
  have hmethod : ¬ LacksMethod sections := fun h => h s hs.mem hs.prop
  by_cases hurl : (Pair.last? "url" (Pair.ofLines s.lines)).getD "" = ""
  · simp only [if_pos hurl]
    exact .url hmetadata hmethod ⟨s, hs, Section.getD_last?_eq_iff.1 hurl⟩
  · have hgiven : ¬ LacksUrl sections := by
      rintro ⟨t, ht, hlacks⟩
      rw [ht.unique hs] at hlacks
      exact hurl (Section.getD_last?_eq_iff.2 hlacks)
    simp only [if_neg hurl]
    exact .request hmetadata hmethod hgiven
      ⟨hname, htype, hurl, s, hs, by rw [hverb, ← name_eq_toUpper]⟩

/-- The document is refused, and the fault names the construct. -/
def Refuses (text : List Char) (construct : String) : Prop :=
  ∃ fault, ofText text = .error fault ∧ fault.construct = construct

/-- A document is refused for the first of three constructs that it lacks, and read as a request if
it lacks none.  Nothing else can end the reading: no record that is built on the way, and not that
of the request, is ever rejected by its schema. -/
theorem ofText_outcome (text : List Char) :
    let sections := Section.scan text
    (Refuses text "metadata" ↔ LacksMetadata sections) ∧
    (Refuses text "method" ↔ ¬ LacksMetadata sections ∧ LacksMethod sections) ∧
    (Refuses text "url" ↔
      ¬ LacksMetadata sections ∧ ¬ LacksMethod sections ∧ LacksUrl sections) ∧
    ((∃ r, ofText text = .ok r ∧ Complete sections r) ↔
      ¬ LacksMetadata sections ∧ ¬ LacksMethod sections ∧ ¬ LacksUrl sections) ∧
    ofTextChecked text = (ofText text).mapError .lacking ∧
    ∀ fault, ofTextChecked text = .error fault →
      fault.construct? = some "metadata" ∨ fault.construct? = some "method" ∨
        fault.construct? = some "url" := by
  intro sections
  have hjudged : Judged sections (ofText text) := judged_ofSections sections
  have hchecked := ofTextChecked_eq text
  unfold Refuses
  rw [hchecked]
  generalize ofText text = outcome at hjudged
  cases hjudged with
  | metadata h hfault =>
    simp [h, hfault, Except.mapError, CheckedFault.construct?]
  | method hmetadata h =>
    simp [h, hmetadata, Except.mapError, CheckedFault.construct?, RequestFault.construct]
  | url hmetadata hmethod h =>
    simp [h, hmetadata, hmethod, Except.mapError, CheckedFault.construct?, RequestFault.construct]
  | request hmetadata hmethod hurl h =>
    simp [h, hmetadata, hmethod, hurl, Except.mapError]

end Courier.Request
