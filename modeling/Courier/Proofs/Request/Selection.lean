import Courier.Proofs.Request.Slots
import Courier.Proofs.Section.Names
import Courier.Proofs.Text.Cut

/-!
# The body and the authentication of a request

A document may describe several bodies and several ways to authenticate.  A section that is
recognised as one of a known kind replaces those before it, and one that is not replaces none.

* `Counts isNone xs x`: the element that counts among those of a list.  `choose_map_eq_some_iff` is
  the step from the way in which it is computed.
* `choose_map_insert`: an element that is not recognised is passed over where another one is.
* `Selected`: what a request has of a family of sections, which the section of its method can switch
  off.  `selected_body_and_auth` says it of a document, with what a further section changes.
-/

namespace Courier

/-! ## The element that counts -/

section Counts

variable {α β : Type} {p isNone : α → Prop} {xs ys : List α} {x y u : α}

/-- An element without the property may be inserted anywhere. -/
theorem isLast_insert_iff (hu : ¬ p u) : IsLast p (xs ++ u :: ys) x ↔ IsLast p (xs ++ ys) x := by
  classical
  rw [← getLast?_filter_eq_some_iff, ← getLast?_filter_eq_some_iff, List.filter_append,
    List.filter_cons_of_neg (by simpa using hu), ← List.filter_append]

/-- The element that counts is the last one that is recognised or, where none is, the first. -/
inductive Counts (isNone : α → Prop) : List α → α → Prop
  | recognised {xs : List α} {x : α} (h : IsLast (¬ isNone ·) xs x) : Counts isNone xs x
  | first {x : α} {xs : List α} (hnone : ∀ y ∈ x :: xs, isNone y) : Counts isNone (x :: xs) x

theorem Counts.mem (h : Counts isNone xs x) : x ∈ xs := by
  cases h with
  | recognised h => exact h.mem
  | first => exact List.mem_cons_self

theorem Counts.unique (hx : Counts isNone xs x) (hy : Counts isNone xs y) : x = y := by
  cases hx with
  | recognised hx =>
    cases hy with
    | recognised hy => exact hx.unique hy
    | first hnone => exact absurd (hnone _ hx.mem) hx.prop
  | first hnone =>
    cases hy with
    | recognised hy => exact absurd (hnone _ hy.mem) hy.prop
    | first => rfl

/-- Where an element is recognised, one that is not may be inserted anywhere. -/
theorem Counts.insert (h : Counts isNone (xs ++ ys) x) (hu : isNone u)
    (hrecognised : ∃ y ∈ xs ++ ys, ¬ isNone y) : Counts isNone (xs ++ u :: ys) x := by
  obtain ⟨y, hy, hyes⟩ := hrecognised
  -- The list is named, since the first element of `xs ++ ys` may be in either part.
  generalize hzs : xs ++ ys = zs at h hy
  cases h with
  | recognised h =>
    subst hzs
    exact .recognised ((isLast_insert_iff fun hnot => hnot hu).2 h)
  | first hnone => exact absurd (hnone y hy) hyes

theorem Counts.concat (h : Counts isNone xs x) (hu : isNone u) : Counts isNone (xs ++ [u]) x := by
  cases h with
  | recognised h =>
    refine .recognised ((isLast_insert_iff fun hnot => hnot hu).2 ?_)
    rwa [List.append_nil]
  | first hnone =>
    refine .first (List.forall_mem_cons.2 ⟨hnone _ List.mem_cons_self, ?_⟩)
    intro y hy
    rcases List.mem_append.1 hy with hy | hy
    · exact hnone y (List.mem_cons_of_mem _ hy)
    · rw [List.mem_singleton.1 hy]
      exact hu

end Counts

namespace Request

open Section (InFamily IsMethodOf)

section Choose

variable {α β : Type} {isNone : β → Prop} [DecidablePred isNone] {read : α → β} {xs ys : List α}
  {u : α} {v : β}

theorem choose_map_eq_none_iff : choose (isNone ·) (xs.map read) = none ↔ xs = [] := by
  induction xs using List.reverseRecOn with
  | nil => exact iff_of_true rfl rfl
  | append_singleton xs x ih =>
    rw [List.map_append, List.map_singleton, choose_snoc]
    split
    · simp
    · rename_i hpassed
      rw [not_or] at hpassed
      exact iff_of_false hpassed.2 (by simp)

theorem exists_counts (h : choose (isNone ·) (xs.map read) = some v) :
    ∃ x, Counts (isNone <| read ·) xs x ∧ v = read x := by
  induction xs using List.reverseRecOn with
  | nil => cases h
  | append_singleton xs x ih =>
    rw [List.map_append, List.map_singleton, choose_snoc] at h
    -- The last element replaces what was chosen before, unless it is not recognised.
    by_cases hx : isNone (read x)
    · by_cases hxs : choose (isNone ·) (xs.map read) = none
      · rw [if_pos (.inr hxs)] at h
        rw [choose_map_eq_none_iff.1 hxs]
        exact ⟨x, .first (by simpa using hx), (Option.some.inj h).symm⟩
      · rw [if_neg (by simp [hx, hxs])] at h
        obtain ⟨y, hy, hv⟩ := ih h
        exact ⟨y, hy.concat hx, hv⟩
    · rw [if_pos (.inl (by simpa using hx))] at h
      exact ⟨x, .recognised ⟨xs, [], rfl, hx, nofun⟩, (Option.some.inj h).symm⟩

/-- The value that is chosen is that of the element that counts. -/
theorem choose_map_eq_some_iff :
    choose (isNone ·) (xs.map read) = some v ↔
      ∃ x, Counts (isNone <| read ·) xs x ∧ v = read x := by
  refine ⟨exists_counts, ?_⟩
  rintro ⟨x, hx, rfl⟩
  have hsome : choose (isNone ·) (xs.map read) ≠ none := fun hnone =>
    List.ne_nil_of_mem hx.mem (choose_map_eq_none_iff.1 hnone)
  obtain ⟨v, hv⟩ := Option.ne_none_iff_exists'.1 hsome
  obtain ⟨y, hy, rfl⟩ := exists_counts hv
  rw [hv, hy.unique hx]

/-- An element that is not recognised is passed over, wherever it stands. -/
theorem choose_map_insert (hu : isNone (read u))
    (hrecognised : ∃ x ∈ xs ++ ys, ¬ isNone (read x)) :
    choose (isNone ·) ((xs ++ u :: ys).map read) = choose (isNone ·) ((xs ++ ys).map read) := by
  obtain ⟨v, hv⟩ : ∃ v, choose (isNone ·) ((xs ++ ys).map read) = some v := by
    obtain ⟨x, hx, -⟩ := hrecognised
    exact Option.ne_none_iff_exists'.1 fun hnone =>
      List.ne_nil_of_mem hx (choose_map_eq_none_iff.1 hnone)
  obtain ⟨x, hx, hread⟩ := choose_map_eq_some_iff.1 hv
  rw [hv, choose_map_eq_some_iff]
  exact ⟨x, hx.insert hu hrecognised, hread⟩

end Choose

variable {sections first second : List Section} {s u : Section} {text : List Char} {r : Request}

/-! ## What is selected -/

/-- The sections of a family, in their order. -/
def familyOf (family : String) (sections : List Section) : List Section :=
  sections.filter (·.InFamily family)

/-- The section is of no known mode. -/
def HasNoMode (s : Section) : Prop := (readBody s).mode = .none

/-- The section is of no known type. -/
def HasNoType (s : Section) : Prop := (readAuth s).type = .none

/-- What a request has of a family of sections: nothing if there is none or if the section of the
method gives one of some words for the key, and else what is read from the section that counts. -/
structure Selected {α : Type} (family key : String) (off : List String) (isNone : Section → Prop)
    (read : Section → α) (sections : List Section) (chosen : Option α) : Prop where
  absent_iff : chosen = none ↔ familyOf family sections = [] ∨
    ∃ s, IsMethodOf sections s ∧ ∃ word ∈ off, s.Gives key word
  counts : ∀ v, chosen = some v → ∃ s, Counts isNone (familyOf family sections) s ∧ v = read s

theorem selected_of_choose {α : Type} {family key : String} {off : List String}
    {isNone : α → Prop} [DecidablePred isNone] {read : Section → α} {found : List Section}
    {chosen : Option α} {c : Prop} [Decidable c] (hfound : found = familyOf family sections)
    (hs : IsMethodOf sections s) (hoff : c ↔ ∃ word ∈ off, s.Gives key word)
    (hchosen : chosen = if c then none else choose (isNone ·) (found.map read)) :
    Selected family key off (isNone <| read ·) read sections chosen := by
  subst hfound hchosen
  have hmethod : c ↔ ∃ s, IsMethodOf sections s ∧ ∃ word ∈ off, s.Gives key word := by
    rw [hoff]
    constructor
    · exact fun hword => ⟨s, hs, hword⟩
    · rintro ⟨t, ht, hword⟩
      rwa [ht.unique hs] at hword
  constructor
  · rw [← hmethod]
    split
    · rename_i hc
      exact iff_of_true rfl (.inr hc)
    · rename_i hc
      rw [choose_map_eq_none_iff, or_iff_left hc]
  · intro v hv
    split at hv
    · cases hv
    · exact choose_map_eq_some_iff.1 hv

theorem sectionsOf_body (sections : List Section) :
    sectionsOf .body sections = familyOf "body:" sections :=
  List.filter_congr fun s _ => by simp [Section.kind_eq_body_iff]

theorem sectionsOf_auth (sections : List Section) :
    sectionsOf .auth sections = familyOf "auth:" sections :=
  List.filter_congr fun s _ => by simp [Section.kind_eq_auth_iff]

/-! ## A further section -/

/-- The section is one of a family and is not recognised, while another one of its family is. -/
structure Outranked (family : String) (isNone : Section → Prop) (sections : List Section)
    (u : Section) : Prop where
  inFamily : u.InFamily family
  unrecognised : isNone u
  recognised : ∃ s ∈ sections, s.InFamily family ∧ ¬ isNone s

theorem familyOf_insert {family : String} (h : u.InFamily family) :
    familyOf family (first ++ u :: second) =
      familyOf family first ++ u :: familyOf family second := by
  rw [familyOf, List.filter_append, List.filter_cons_of_pos (by simpa using h)]
  rfl

theorem Outranked.choose_eq {α : Type} {isNone : α → Prop} [DecidablePred isNone]
    {read : Section → α} {family : String}
    (h : Outranked family (isNone <| read ·) (first ++ second) u) :
    choose (isNone ·) ((familyOf family (first ++ u :: second)).map read) =
      choose (isNone ·) ((familyOf family (first ++ second)).map read) := by
  have happend : familyOf family (first ++ second) =
      familyOf family first ++ familyOf family second := List.filter_append first second
  obtain ⟨s, hs, hfamily, hrecognised⟩ := h.recognised
  rw [familyOf_insert h.inFamily, happend]
  refine choose_map_insert h.unrecognised ⟨s, ?_, hrecognised⟩
  rw [← happend]
  exact List.mem_filter.2 ⟨hs, by simpa using hfamily⟩

/-- The parts of a request are read from the sections of their kinds, of which only the bodies and
authentications are selected from. -/
theorem ofSections_congr {sections sections' : List Section}
    (h : ∀ kind, kind ≠ .body → kind ≠ .auth → sectionsOf kind sections = sectionsOf kind sections')
    (hbody : choose (·.mode = .none) ((sectionsOf .body sections).map readBody) =
      choose (·.mode = .none) ((sectionsOf .body sections').map readBody))
    (hauth : choose (·.type = .none) ((sectionsOf .auth sections).map readAuth) =
      choose (·.type = .none) ((sectionsOf .auth sections').map readAuth)) :
    ofSections sections = ofSections sections' := by
  have htext : ∀ kind, kind ≠ .body → kind ≠ .auth →
      lastText? (·.kind = kind) sections = lastText? (·.kind = kind) sections' := by
    intro kind hnotBody hnotAuth
    exact congrArg (fun found => found.getLast?.map fun s => readText s.lines)
      (h kind hnotBody hnotAuth)
  unfold ofSections readMethod? collectPairs readTestScript
  rw [hbody, hauth, htext .preScript nofun nofun, htext .docs nofun nofun]
  rw [h .metadata nofun nofun, h .method nofun nofun, h .headers nofun nofun,
    h .queryParams nofun nofun, h .pathParams nofun nofun, h .testScript nofun nofun]

theorem sectionsOf_insert_of_ne {kind : Section.Kind} (h : u.kind ≠ kind) :
    sectionsOf kind (first ++ u :: second) = sectionsOf kind (first ++ second) := by
  rw [sectionsOf, List.filter_append, List.filter_cons_of_neg (by simpa using h),
    ← List.filter_append]
  rfl

/-- A section that is outranked in its family changes nothing, wherever it stands. -/
theorem ofSections_insert (h : Outranked "body:" HasNoMode (first ++ second) u ∨
      Outranked "auth:" HasNoType (first ++ second) u) :
    ofSections (first ++ u :: second) = ofSections (first ++ second) := by
  rcases h with h | h
  · have hkind : u.kind = .body := Section.kind_eq_body_iff.2 h.inFamily
    refine ofSections_congr (fun kind hbody _ => sectionsOf_insert_of_ne ?_) ?_ ?_
    · exact fun heq => hbody (heq.symm.trans hkind)
    · rw [sectionsOf_body, sectionsOf_body]
      exact Outranked.choose_eq h
    · rw [sectionsOf_insert_of_ne (by rw [hkind]; nofun)]
  · have hkind : u.kind = .auth := Section.kind_eq_auth_iff.2 h.inFamily
    refine ofSections_congr (fun kind _ hauth => sectionsOf_insert_of_ne ?_) ?_ ?_
    · exact fun heq => hauth (heq.symm.trans hkind)
    · rw [sectionsOf_insert_of_ne (by rw [hkind]; nofun)]
    · rw [sectionsOf_auth, sectionsOf_auth]
      exact Outranked.choose_eq h

/-! ## Sections that are not recognised -/

/-- The variant in the name of the section has a colon, so that it is no word. -/
def Nested (family : String) (s : Section) : Prop :=
  ∃ variant, s.name = family ++ variant ∧ ':' ∈ variant.toList

/-- The variant in the name of the section is no known way to authenticate. -/
def Unlisted (s : Section) : Prop :=
  ∃ variant, s.name = "auth:" ++ variant ∧ '\n' ∉ variant.toList ∧
    ∀ entry ∈ AuthType.variants, variant ≠ entry.1

theorem cutAt_variant (word variant : String) (h : ':' ∉ word.toList) :
    Text.cutAt ':' (word ++ ":" ++ variant).toList = (word.toList, some variant.toList) := by
  rw [String.toList_append, String.toList_append, List.append_assoc]
  exact Text.cutAt_append_cons h _

theorem variant?_of_nested (word : String) (hword : ':' ∉ word.toList)
    (h : Nested (word ++ ":") s) : Section.variant? s.name = none := by
  obtain ⟨variant, hname, hcolon⟩ := h
  rw [Section.variant?, hname, cutAt_variant word variant hword]
  have hmem : ':' ∈ if variant.toList.getLast? = some '\n' then variant.toList.dropLast
      else variant.toList := by
    split
    · rename_i hlast
      obtain ⟨before, hbefore⟩ := List.getLast?_eq_some_iff.1 hlast
      rw [hbefore] at hcolon ⊢
      simpa using hcolon
    · exact hcolon
  have hall : (if variant.toList.getLast? = some '\n' then variant.toList.dropLast
      else variant.toList).all Section.isVariantChar = false := by
    rw [List.all_eq_false]
    exact ⟨':', hmem, by decide⟩
  simp [hall]

theorem hasNoMode_of_nested (h : Nested "body:" s) : HasNoMode s := by
  have hvariant : Section.variant? s.name = none := variant?_of_nested "body" (by decide) h
  simp only [HasNoMode, readBody, Section.variantIn, hvariant]

theorem variant?_eq_some (word : String) {variant found : String} (hword : ':' ∉ word.toList)
    (hline : '\n' ∉ variant.toList) (h : Section.variant? (word ++ ":" ++ variant) = some found) :
    found = variant := by
  have hlast : variant.toList.getLast? ≠ some '\n' := fun heq => hline (List.mem_of_getLast? heq)
  rw [Section.variant?, cutAt_variant word variant hword] at h
  simp only [if_neg hlast] at h
  split at h
  · rw [← Option.some.inj h, String.ofList_toList]
  · cases h

theorem hasNoType_of_unlisted (h : Unlisted s) : HasNoType s := by
  obtain ⟨variant, hname, hline, hunlisted⟩ := h
  have htype : Section.variantIn AuthType.variants .none .none s.name = .none := by
    unfold Section.variantIn
    rcases hvariant : Section.variant? s.name with _ | found
    · rfl
    · rw [hname] at hvariant
      obtain rfl : found = variant := variant?_eq_some "auth" (by decide) hline hvariant
      have hlookup : AuthType.variants.lookup found = none :=
        List.lookup_eq_none_iff.2 fun entry hentry => by simpa using hunlisted entry hentry
      simp only [hlookup, Option.getD_none]
  simp only [HasNoType, readAuth, htype]

/-! ## Documents -/

/-- The body and the authentication of a document are selected in the same way.  A section of no
known mode or type may stand anywhere beside one that is recognised, and such are the sections of
nested bodies and of unknown authentications. -/
theorem selected_body_and_auth (h : ofText text = .ok r) :
    let sections := Section.scan text
    Selected "body:" "body" ["none"] HasNoMode readBody sections r.body ∧
    Selected "auth:" "auth" ["none", "inherit"] HasNoType readAuth sections r.auth ∧
    (∀ text' first u second, sections = first ++ second →
      Section.scan text' = first ++ u :: second →
      Outranked "body:" HasNoMode sections u ∨ Outranked "auth:" HasNoType sections u →
      ofText text' = .ok r) ∧
    ∀ s, (Nested "body:" s → HasNoMode s) ∧ (Unlisted s → HasNoType s) := by
  intro sections
  obtain ⟨s, hs, hbody, hauth, -⟩ := ofSections_eq_ok h
  refine ⟨?_, ?_, ?_, fun s => ⟨hasNoMode_of_nested, hasNoType_of_unlisted⟩⟩
  · refine selected_of_choose (sectionsOf_body _) hs ?_ hbody
    simp [Section.last?_eq_some_iff]
  · refine selected_of_choose (sectionsOf_auth _) hs ?_ hauth
    simp [Section.last?_eq_some_iff]
  · intro text' first u second hsections hscan houtranked
    rw [hsections] at houtranked
    rw [ofText, hscan, ofSections_insert houtranked, ← hsections]
    exact h

/-- The sections of a document before and after those of the variables of its query. -/
def querySections : List Section × List Section :=
  ([⟨"meta", ["  name: ping".toList, "  type: http".toList]⟩,
    ⟨"post", ["  url: http://h".toList]⟩],
   [⟨"body:graphql", ["  x".toList]⟩,
    ⟨"auth:basic", ["  username: u".toList]⟩,
    ⟨"auth:oauth2", ["  grant_type: code".toList]⟩])

def variablesSection : Section := ⟨"body:graphql:vars", ["  1".toList]⟩

/-- The variables may stand before the query, and do not become the body. -/
theorem selected_body_and_auth_query :
    let text := Section.print (querySections.1 ++ querySections.2)
    let text' := Section.print (querySections.1 ++ variablesSection :: querySections.2)
    ∃ r, ofText text = .ok r ∧ ofText text' = .ok r ∧ r.body = some ⟨.graphql, "x", none⟩ ∧
      r.auth = some ⟨.basic, [("username", "u"), ("password", "")]⟩ := by
  intro text text'
  have hscan : Section.scan text = querySections.1 ++ querySections.2 := by decide +kernel
  have hscan' : Section.scan text' = querySections.1 ++ variablesSection :: querySections.2 := by
    decide +kernel
  obtain ⟨r, hr, hread⟩ : ∃ r, ofText text = .ok r ∧ (r.body, r.auth) =
      (some ⟨.graphql, "x", none⟩,
        some ⟨.basic, [("username", "u"), ("password", "")]⟩) := by
    rw [ofText, hscan]
    exact Outcome.exists_of_toOption_map (by decide +kernel)
  obtain ⟨-, -, hinsert, hnested⟩ := selected_body_and_auth hr
  have houtranked : Outranked "body:" HasNoMode (Section.scan text) variablesSection := by
    refine ⟨by decide, (hnested _).1 ⟨"graphql:vars", by decide, by decide⟩, ?_⟩
    rw [hscan]
    exact ⟨⟨"body:graphql", ["  x".toList]⟩, by decide, by decide, by unfold HasNoMode; decide⟩
  refine ⟨r, hr, hinsert text' _ _ _ hscan hscan' (.inl houtranked), ?_, ?_⟩
  · exact congrArg Prod.fst hread
  · exact congrArg Prod.snd hread

end Request

end Courier
