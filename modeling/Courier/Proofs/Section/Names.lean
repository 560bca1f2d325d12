import Courier.Request.Document
import Mathlib.Data.List.Basic
import Mathlib.Tactic.Common

/-!
# Sections by their names and keys

A document may repeat a section, and a section may repeat a key.  In both cases the last one counts.
This module says so without the functions that look things up.

* `IsLast p xs x`: the last element of a list with a property.  `getLast?_filter_eq_some_iff` and
  `find?_reverse_eq_some_iff` recognise the two ways in which the library computes it.
* `kind_eq_metadata_iff` and its companions: which names make a section one of the metadata, of a
  method, of a body and of an authentication.
* `Gives s key value`: the last pair of a key in a section has a value.  `Provides s key` says that
  this value is not empty.
* `readMethod?_eq_some_iff`: the method of a request is the name of the last section of a verb.
-/

namespace Courier

/-! ## The last element with a property -/

section Last

variable {α : Type} {p : α → Prop} {xs : List α} {x y : α}

/-- The element has the property, and none of those after it in the list has. -/
def IsLast (p : α → Prop) (xs : List α) (x : α) : Prop :=
  ∃ before after, xs = before ++ x :: after ∧ p x ∧ ∀ y ∈ after, ¬ p y

theorem IsLast.mem (h : IsLast p xs x) : x ∈ xs := by
  obtain ⟨before, after, rfl, -, -⟩ := h
  simp

theorem IsLast.prop (h : IsLast p xs x) : p x := by
  obtain ⟨-, -, -, hx, -⟩ := h
  exact hx

theorem find?_reverse_eq_some_iff [DecidablePred p] :
    xs.reverse.find? p = some x ↔ IsLast p xs x := by
  rw [List.find?_eq_some_iff_append, IsLast]
  constructor
  · rintro ⟨hx, after, before, hxs, hafter⟩
    refine ⟨before.reverse, after.reverse, ?_, by simpa using hx, ?_⟩
    · rw [← xs.reverse_reverse, hxs]
      simp
    · intro y hy
      simpa using hafter y (List.mem_reverse.1 hy)
  · rintro ⟨before, after, rfl, hx, hafter⟩
    refine ⟨by simpa using hx, after.reverse, before.reverse, by simp, ?_⟩
    intro y hy
    simpa using hafter y (List.mem_reverse.1 hy)

theorem getLast?_filter_eq_some_iff [DecidablePred p] :
    (xs.filter p).getLast? = some x ↔ IsLast p xs x := by
  rw [List.getLast?_filter, find?_reverse_eq_some_iff]

/-- There is one such element at most. -/
theorem IsLast.unique (hx : IsLast p xs x) (hy : IsLast p xs y) : x = y := by
  classical
  rw [← getLast?_filter_eq_some_iff] at hx hy
  rw [hx] at hy
  exact Option.some.inj hy

theorem exists_isLast (hx : x ∈ xs) (hp : p x) : ∃ y, IsLast p xs y := by
  classical
  have hmem : x ∈ xs.filter p := List.mem_filter.2 ⟨hx, by simpa using hp⟩
  have hne : xs.filter p ≠ [] := List.ne_nil_of_mem hmem
  exact ⟨_, getLast?_filter_eq_some_iff.1 (List.getLast?_eq_some_getLast hne)⟩

end Last

namespace Section

/-! ## Kinds and names -/

/-- The beginnings of names that make a section one of a body or an authentication. -/
def families : List (String × Kind) := [("body:", .body), ("auth:", .auth)]

/-- The name of the section begins like those of a family. -/
def InFamily (family : String) (s : Section) : Prop := family.toList <+: s.name.toList

instance (family : String) : DecidablePred (InFamily family) := fun s =>
  inferInstanceAs (Decidable (family.toList <+: s.name.toList))

/-- The kinds of names, in the order in which a name is looked up. -/
inductive Named (name : String) : Kind → Prop
  | verb (hverb : name ∈ verbs) : Named name .method
  | fixed {kind : Kind} (hkind : (name, kind) ∈ fixedKinds) : Named name kind
  | family {family : String} {kind : Kind} (hfamily : (family, kind) ∈ families)
      (hname : family.toList <+: name.toList) : Named name kind
  | other (hname : ∀ entry ∈ families, ¬ entry.1.toList <+: name.toList) : Named name .none

theorem named_kindOf (name : String) : Named name (kindOf name) := by
  rw [kindOf]
  split
  · exact .verb ‹_›
  · split
    · rename_i kind hlookup
      obtain ⟨before, after, hsplit, -⟩ := List.lookup_eq_some_iff.1 hlookup
      exact .fixed (by rw [hsplit]; simp)
    · simp only [List.isPrefixOf_iff_prefix]
      split
      · exact .family List.mem_cons_self ‹_›
      · split
        · exact .family (List.mem_cons_of_mem _ List.mem_cons_self) ‹_›
        · exact .other (List.forall_mem_cons.2 ⟨‹_›, List.forall_mem_singleton.2 ‹_›⟩)

variable {s : Section}

theorem kind_eq_method_iff : s.kind = .method ↔ s.name ∈ verbs := by
  constructor
  · intro h
    have hnamed := named_kindOf s.name
    rw [show kindOf s.name = .method from h] at hnamed
    cases hnamed with
    | verb hverb => exact hverb
    | fixed hkind => exact absurd hkind (by simp [fixedKinds])
    | family hfamily => exact absurd hfamily (by simp [families])
  · intro hverb
    rw [kind, kindOf, if_pos hverb]

/-- A kind of sections with fixed names is that of these names: no verb is among them, and none of
them begins like those of a family. -/
theorem kind_eq_iff_mem_fixedKinds {kind : Kind} (h : ∃ name, (name, kind) ∈ fixedKinds) :
    s.kind = kind ↔ (s.name, kind) ∈ fixedKinds := by
  obtain ⟨name, hmem⟩ := h
  constructor
  · rintro rfl
    have hnamed := named_kindOf s.name
    rw [Section.kind] at hmem ⊢
    generalize kindOf s.name = found at hnamed hmem ⊢
    have hapart : ∀ entry ∈ fixedKinds,
        entry.2 ≠ .method ∧ entry.2 ≠ .none ∧ ∀ other ∈ families, entry.2 ≠ other.2 := by decide
    cases hnamed with
    | verb => exact absurd rfl (hapart _ hmem).1
    | fixed hkind => exact hkind
    | family hfamily => exact ((hapart _ hmem).2.2 _ hfamily rfl).elim
    | other => exact absurd rfl (hapart _ hmem).2.1
  · exact (by decide +kernel : ∀ entry ∈ fixedKinds, kindOf entry.1 = entry.2) (s.name, kind)

theorem kind_eq_metadata_iff : s.kind = .metadata ↔ s.name = "meta" := by
  rw [kind_eq_iff_mem_fixedKinds ⟨"meta", by decide⟩]
  simp [fixedKinds]

theorem kind_eq_testScript_iff :
    s.kind = .testScript ↔ s.name ∈ ["script:post-response", "script:test", "tests"] := by
  rw [kind_eq_iff_mem_fixedKinds ⟨"tests", by decide⟩]
  simp [fixedKinds]

/-- The families are those of their kinds: no other name begins like theirs, and no name is in
both. -/
theorem kind_eq_iff_inFamily {family : String} {kind : Kind} (h : (family, kind) ∈ families) :
    s.kind = kind ↔ s.InFamily family := by
  have hnamed := named_kindOf s.name
  rw [InFamily, Section.kind]
  generalize kindOf s.name = found at hnamed
  -- In each case the tables of names show that the name is, or is not, of the family.
  cases hnamed with
  | verb hverb =>
    have hbegins : ∀ entry ∈ families, entry.2 ≠ .method ∧
        ∀ verb ∈ verbs, ¬ entry.1.toList <+: verb.toList := by decide
    exact iff_of_false (hbegins _ h).1.symm ((hbegins _ h).2 _ hverb)
  | fixed hkind =>
    have hbegins : ∀ entry ∈ families, ∀ other ∈ fixedKinds, entry.2 ≠ other.2 ∧
        ¬ entry.1.toList <+: other.1.toList := by decide
    exact iff_of_false (hbegins _ h _ hkind).1.symm (hbegins _ h _ hkind).2
  | @family family' _ hfamily hname =>
    have hbegins : ∀ entry ∈ families, ∀ other ∈ families,
        (entry.2 = other.2 ∧ entry.1 = other.1) ∨ (entry.2 ≠ other.2 ∧
          ¬ entry.1.toList <+: other.1.toList) := by decide
    rcases hbegins _ h _ hfamily with ⟨hkind, hsame⟩ | ⟨hkind, hapart⟩
    · have hname' : family.toList <+: s.name.toList := (show family = family' from hsame) ▸ hname
      exact iff_of_true hkind.symm hname'
    · refine iff_of_false hkind.symm fun hprefix => ?_
      rcases List.prefix_or_prefix_of_prefix hprefix hname with hsub | hsub
      · exact hapart hsub
      · rcases hbegins _ hfamily _ h with ⟨hsame, -⟩ | ⟨-, hapart'⟩
        · exact hkind hsame.symm
        · exact hapart' hsub
  | other hname =>
    have hkind : ∀ entry ∈ families, entry.2 ≠ .none := by decide
    exact iff_of_false (hkind _ h).symm (hname _ h)

theorem kind_eq_body_iff : s.kind = .body ↔ s.InFamily "body:" := kind_eq_iff_inFamily (by decide)

theorem kind_eq_auth_iff : s.kind = .auth ↔ s.InFamily "auth:" := kind_eq_iff_inFamily (by decide)

/-! ## Keys and values -/

/-- The last pair of the key in the section has the value. -/
def Gives (s : Section) (key value : String) : Prop :=
  ∃ p, IsLast (·.key = key) (Pair.ofLines s.lines) p ∧ p.value = value

/-- The last pair of the key in the section has a value that is not empty. -/
def Provides (s : Section) (key : String) : Prop := ∃ value, s.Gives key value ∧ value ≠ ""

theorem last?_eq_some_iff {key value : String} :
    Pair.last? key (Pair.ofLines s.lines) = some value ↔ s.Gives key value := by
  rw [Pair.last?, Option.map_eq_some_iff, Gives]
  exact exists_congr fun p => and_congr_left fun _ => find?_reverse_eq_some_iff

/-- A key without pairs and a key with an empty value are looked up as the same. -/
theorem getD_last?_eq_iff {key : String} :
    (Pair.last? key (Pair.ofLines s.lines)).getD "" = "" ↔ ¬ s.Provides key := by
  rcases hlast : Pair.last? key (Pair.ofLines s.lines) with _ | value
  · refine iff_of_true rfl ?_
    rintro ⟨value, hgives, -⟩
    rw [last?_eq_some_iff.2 hgives] at hlast
    cases hlast
  · rw [Option.getD_some]
    constructor
    · rintro rfl ⟨other, hgives, hne⟩
      rw [last?_eq_some_iff.2 hgives] at hlast
      exact hne (Option.some.inj hlast)
    · intro hnot
      by_contra hne
      exact hnot ⟨value, last?_eq_some_iff.1 hlast, hne⟩

/-! ## The section of the method -/

/-- The last section that is named after a verb. -/
def IsMethodOf (sections : List Section) (s : Section) : Prop := IsLast (·.name ∈ verbs) sections s

theorem ofVerb?_eq_some_iff {verb : String} {method : Method} :
    Method.ofVerb? verb = some method ↔ verb = method.verb := by
  constructor
  · intro h
    simpa [eq_comm] using List.find?_some h
  · rintro rfl
    exact method.ofVerb?_verb

theorem exists_verb_eq {verb : String} (h : verb ∈ verbs) : ∃ method : Method, verb = method.verb :=
  (by decide : ∀ verb ∈ verbs, ∃ method ∈ Method.all, verb = Method.verb method) verb h |>.imp
    fun _ hmethod => hmethod.2

end Section

namespace Request

open Section (IsMethodOf verbs)

variable {sections : List Section} {s : Section} {method : Method} {pairs : List Pair}

theorem getLast?_sectionsOf_method :
    (sectionsOf .method sections).getLast? = some s ↔ IsMethodOf sections s := by
  have hfilter : sectionsOf .method sections = sections.filter (·.name ∈ verbs) :=
    List.filter_congr fun t _ => by simp [Section.kind_eq_method_iff]
  rw [hfilter, getLast?_filter_eq_some_iff, IsMethodOf]

/-- The method and its pairs are those of the last section of a verb. -/
theorem readMethod?_eq_some_iff :
    readMethod? sections = some (method, pairs) ↔
      ∃ s, IsMethodOf sections s ∧ s.name = method.verb ∧ Pair.ofLines s.lines = pairs := by
  rw [readMethod?]
  simp only [Option.bind_eq_bind, Option.bind_eq_some_iff, Option.pure_def, Option.some.injEq,
    Prod.mk.injEq, getLast?_sectionsOf_method, Section.ofVerb?_eq_some_iff]
  constructor
  · rintro ⟨s, hs, method, hverb, rfl, hpairs⟩
    exact ⟨s, hs, hverb, hpairs⟩
  · rintro ⟨s, hs, hverb, hpairs⟩
    exact ⟨s, hs, method, hverb, rfl, hpairs⟩

theorem readMethod?_eq_none_iff :
    readMethod? sections = none ↔ ∀ s ∈ sections, s.name ∉ verbs := by
  constructor
  · intro h s hs hverb
    obtain ⟨t, ht⟩ := exists_isLast (p := (·.name ∈ verbs)) hs hverb
    obtain ⟨method, hmethod⟩ := Section.exists_verb_eq ht.prop
    rw [readMethod?_eq_some_iff.2 ⟨t, ht, hmethod, rfl⟩] at h
    cases h
  · intro h
    rw [Option.eq_none_iff_forall_ne_some]
    rintro ⟨method, pairs⟩ hread
    obtain ⟨s, hs, -, -⟩ := readMethod?_eq_some_iff.1 hread
    exact h s hs.mem hs.prop

/-- What is read for the parts that the section of the method can switch off, and for the test
script. -/
theorem ofSections_eq_ok {r : Request} (h : ofSections sections = .ok r) :
    ∃ s, IsMethodOf sections s ∧
      r.body = (if Pair.last? "body" (Pair.ofLines s.lines) = some "none" then none
        else choose (·.mode = .none) ((sectionsOf .body sections).map readBody)) ∧
      r.auth = (if Pair.last? "auth" (Pair.ofLines s.lines) = some "none" ∨
          Pair.last? "auth" (Pair.ofLines s.lines) = some "inherit" then none
        else choose (·.type = .none) ((sectionsOf .auth sections).map readAuth)) ∧
      r.testScript = readTestScript sections := by
  unfold ofSections at h
  rcases hfound : (sectionsOf .metadata sections).mapM fun s => readMetadata s.lines with e | found
  · rw [hfound] at h
    cases h
  simp only [hfound, bind, Except.bind] at h
  rcases hlast : found.getLast? with _ | m
  · rw [hlast] at h
    cases h
  rcases hread : readMethod? sections with _ | ⟨method, pairs⟩
  · rw [hlast, hread] at h
    cases h
  obtain ⟨s, hs, -, rfl⟩ := readMethod?_eq_some_iff.1 hread
  simp only [hlast, hread] at h
  split at h
  · cases h
  · cases h
    exact ⟨s, hs, rfl, rfl, rfl⟩

end Request

end Courier
