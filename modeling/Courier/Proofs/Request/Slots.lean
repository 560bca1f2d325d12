import Courier.Proofs.Outcome
import Courier.Proofs.Section.Printer
import Courier.Request.Document
import Mathlib.Data.List.Induction

/-!
# Slots

Each section that a request is read from belongs to a slot.  `Draft` is what is known of a
request after some of its sections, and `Draft.step` reads one more; `ofSections_eq_foldlM` says
that a request is read in this way.  A section reads and changes the part of its own slot only, so
that two sections of different slots may be exchanged (`Draft.step_comm`).  What is read therefore
depends on the order within each slot alone: `ofText_eq_of_rearranged`.
-/

namespace Courier

/-- The parts of a request that are read independently of each other. -/
inductive Slot where
  | metadata
  | method
  | headers
  | queryParams
  | pathParams
  | body
  | auth
  | preScript
  | postResponse
  | tests
  | docs
  deriving DecidableEq, Repr

def Slot.all : List Slot :=
  [.metadata, .method, .headers, .queryParams, .pathParams, .body, .auth, .preScript,
    .postResponse, .tests, .docs]

theorem Slot.mem_all (slot : Slot) : slot ∈ Slot.all := by
  cases slot <;> decide

/-- The slot of a section, if it belongs to a request. -/
def Section.slot? (s : Section) : Option Slot :=
  match s.kind with
  | .metadata => some .metadata
  | .method => some .method
  | .headers => some .headers
  | .queryParams => some .queryParams
  | .pathParams => some .pathParams
  | .body => some .body
  | .auth => some .auth
  | .preScript => some .preScript
  | .testScript => some (if s.name = "script:post-response" then .postResponse else .tests)
  | .docs => some .docs
  | .none => none

theorem Section.slot?_eq_none_iff {s : Section} : s.slot? = none ↔ s.kind = .none := by
  unfold Section.slot?
  split <;> simp_all

namespace Request

/-- What is known of a request after some of its sections. -/
structure Draft where
  metadata : Option Metadata
  method : Option (Method × List Pair)
  headers : List Pair
  queryParams : List Pair
  pathParams : List Pair
  body : Option Body
  auth : Option Auth
  preScript : Option String
  postResponse : Option String
  tests : Option String
  docs : Option String

namespace Draft

def empty : Draft :=
  ⟨none, none, [], [], [], none, none, none, none, none, none⟩

/-- Reads one more section. -/
def step (p : Draft) (s : Section) : Except RequestFault Draft :=
  match s.slot? with
  | some .metadata => return { p with metadata := some (← readMetadata s.lines) }
  | some .method =>
    return { p with method := (Method.ofVerb? s.name).map (·, Pair.ofLines s.lines) }
  | some .headers => return { p with headers := p.headers ++ Pair.ofLines s.lines }
  | some .queryParams => return { p with queryParams := p.queryParams ++ Pair.ofLines s.lines }
  | some .pathParams => return { p with pathParams := p.pathParams ++ Pair.ofLines s.lines }
  | some .body =>
    -- A body of no kind does not replace one that is there.
    return { p with
      body := if (readBody s).mode ≠ .none ∨ p.body = none then some (readBody s) else p.body }
  | some .auth =>
    return { p with
      auth := if (readAuth s).type ≠ .none ∨ p.auth = none then some (readAuth s) else p.auth }
  | some .preScript => return { p with preScript := some (readText s.lines) }
  | some .postResponse => return { p with postResponse := some (readText s.lines) }
  | some .tests => return { p with tests := some (readText s.lines) }
  | some .docs => return { p with docs := some (readText s.lines) }
  | none => return p

/-- The request, once all sections are read. -/
def finish (p : Draft) : Except RequestFault Request := do
  let some metadata := p.metadata | throw .missingMetadata
  let some (method, pairs) := p.method | throw .missingMethod
  let url := (Pair.last? "url" pairs).getD ""
  if url = "" then throw .missingUrl
  let bodyWord := Pair.last? "body" pairs
  let authWord := Pair.last? "auth" pairs
  return {
    metadata, method, url
    headers := p.headers
    queryParams := p.queryParams
    pathParams := p.pathParams
    body := if bodyWord = some "none" then none else p.body
    auth := if authWord = some "none" ∨ authWord = some "inherit" then none else p.auth
    preScript := p.preScript
    testScript :=
      match p.postResponse, p.tests with
      | some a, some b => some (a ++ "\n" ++ b)
      | some a, none => some a
      | none, b => b
    docs := p.docs }

/-- What is known after some sections, said slot by slot. -/
def ofSections (sections : List Section) : Except RequestFault Draft := do
  let found ← (sectionsOf .metadata sections).mapM fun s => readMetadata s.lines
  return {
    metadata := found.getLast?
    method := readMethod? sections
    headers := collectPairs .headers sections
    queryParams := collectPairs .queryParams sections
    pathParams := collectPairs .pathParams sections
    body := choose (·.mode = .none) ((sectionsOf .body sections).map readBody)
    auth := choose (·.type = .none) ((sectionsOf .auth sections).map readAuth)
    preScript := lastText? (·.kind = .preScript) sections
    postResponse :=
      lastText? (·.name = "script:post-response") (sectionsOf .testScript sections)
    tests := lastText? (·.name ≠ "script:post-response") (sectionsOf .testScript sections)
    docs := lastText? (·.kind = .docs) sections }

end Draft

theorem ofSections_eq_finish (sections : List Section) :
    ofSections sections = Draft.ofSections sections >>= Draft.finish := by
  unfold ofSections Draft.ofSections
  cases (sectionsOf .metadata sections).mapM fun s => readMetadata s.lines with
  | error e => rfl
  | ok found => rfl

/-! ## One section more -/

theorem sectionsOf_snoc (kind : Section.Kind) (sections : List Section) (s : Section) :
    sectionsOf kind (sections ++ [s]) =
      if s.kind = kind then sectionsOf kind sections ++ [s] else sectionsOf kind sections := by
  rw [sectionsOf, List.filter_append, List.filter_cons]
  split_ifs <;> simp_all [sectionsOf]

theorem collectPairs_snoc (kind : Section.Kind) (sections : List Section) (s : Section) :
    collectPairs kind (sections ++ [s]) =
      if s.kind = kind then collectPairs kind sections ++ Pair.ofLines s.lines
      else collectPairs kind sections := by
  rw [collectPairs, sectionsOf_snoc]
  split_ifs
  · rw [List.flatMap_append, List.flatMap_singleton]
    rfl
  · rfl

theorem lastText?_snoc (p : Section → Bool) (sections : List Section) (s : Section) :
    lastText? p (sections ++ [s]) =
      if p s then some (readText s.lines) else lastText? p sections := by
  rw [lastText?, List.filter_append, List.filter_cons]
  split_ifs
  · simp
  · simp [lastText?]

theorem readMethod?_snoc (sections : List Section) (s : Section) :
    readMethod? (sections ++ [s]) =
      if s.kind = .method then (Method.ofVerb? s.name).map (·, Pair.ofLines s.lines)
      else readMethod? sections := by
  rw [readMethod?, sectionsOf_snoc]
  split_ifs
  · rw [List.getLast?_concat]
    cases h : Method.ofVerb? s.name <;> simp [h]
  · rfl

theorem choose_snoc {α : Type} (isNone : α → Bool) (values : List α) (v : α) :
    choose isNone (values ++ [v]) =
      if isNone v = false ∨ choose isNone values = none then some v else choose isNone values := by
  rw [choose, List.foldl_append]
  change (if !isNone v || (choose isNone values).isNone then _ else choose isNone values) = _
  simp

/-- Reading one more section is a step. -/
theorem Draft.ofSections_snoc (sections : List Section) (s : Section) :
    ofSections (sections ++ [s]) = ofSections sections >>= (·.step s) := by
  unfold ofSections
  simp only [sectionsOf_snoc, collectPairs_snoc, lastText?_snoc, readMethod?_snoc]
  cases hkind : s.kind
  case testScript =>
    by_cases hname : s.name = "script:post-response"
    · simp [step, Section.slot?, hkind, hname, lastText?_snoc]
    · simp [step, Section.slot?, hkind, hname, lastText?_snoc]
  case body => simp [step, Section.slot?, hkind, choose_snoc]
  case auth => simp [step, Section.slot?, hkind, choose_snoc]
  all_goals simp [step, Section.slot?, hkind]

/-- A request is read section by section. -/
theorem ofSections_eq_foldlM (sections : List Section) :
    ofSections sections = sections.foldlM Draft.step .empty >>= Draft.finish := by
  have hrun : Draft.ofSections sections = sections.foldlM Draft.step .empty := by
    induction sections using List.reverseRecOn with
    | nil => rfl
    | append_singleton sections s ih =>
      rw [Draft.ofSections_snoc, ih, List.foldlM_append]
      simp
  rw [ofSections_eq_finish, hrun]

/-! ## Sections of different slots -/

/-- A section that no request is read from is passed over. -/
theorem Draft.step_of_slot?_none {s : Section} (h : s.slot? = none) (p : Draft) :
    p.step s = .ok p := by
  rw [step, h]
  rfl

/-- Two sections of different slots may be exchanged: each changes the part of its own slot, and a
fault of one is met before or after the other is read. -/
theorem Draft.step_comm {s t : Section} (h : s.slot? ≠ t.slot?) (p : Draft) :
    p.step s >>= (·.step t) = p.step t >>= (·.step s) := by
  rcases hs : s.slot? with _ | a
  · simp only [step_of_slot?_none hs]
    exact (bind_pure (p.step t)).symm
  rcases ht : t.slot? with _ | b
  · simp only [step_of_slot?_none ht]
    exact bind_pure (p.step s)
  have hne : a ≠ b := fun heq => h (by rw [hs, ht, heq])
  simp only [step, hs, ht]
  cases a
  case metadata =>
    cases b
    case metadata => exact absurd rfl hne
    all_goals cases readMetadata s.lines <;> rfl
  all_goals
    cases b
    case metadata => cases readMetadata t.lines <;> rfl
    all_goals first | rfl | exact absurd rfl hne

/-- A section is read at any place before or after sections of other slots. -/
theorem Draft.foldlM_middle {s : Section} {first : List Section}
    (h : ∀ t ∈ first, t.slot? ≠ s.slot?) (rest : List Section) (p : Draft) :
    (first ++ s :: rest).foldlM step p = (s :: (first ++ rest)).foldlM step p := by
  induction first generalizing p with
  | nil => rfl
  | cons t first ih =>
    have hfirst : ∀ t' ∈ first, t'.slot? ≠ s.slot? := fun t' ht' =>
      h t' (List.mem_cons_of_mem _ ht')
    calc
      ((t :: first) ++ s :: rest).foldlM step p
          = p.step t >>= fun p' => (first ++ s :: rest).foldlM step p' := rfl
      _ = p.step t >>= fun p' => p'.step s >>= fun p'' => (first ++ rest).foldlM step p'' := by
        simp only [ih hfirst, List.foldlM_cons]
      _ = (p.step t >>= (·.step s)) >>= fun p'' => (first ++ rest).foldlM step p'' :=
        (bind_assoc _ _ _).symm
      _ = (p.step s >>= (·.step t)) >>= fun p'' => (first ++ rest).foldlM step p'' := by
        rw [step_comm (h t List.mem_cons_self)]
      _ = (s :: ((t :: first) ++ rest)).foldlM step p := bind_assoc _ _ _

/-- The sections that a request is read from. -/
def known (sections : List Section) : List Section := sections.filter (·.kind ≠ .none)

/-- The sections of a slot, in their order. -/
def inSlot (slot : Slot) (sections : List Section) : List Section :=
  sections.filter (·.slot? = some slot)

theorem inSlot_append (slot : Slot) (first second : List Section) :
    inSlot slot (first ++ second) = inSlot slot first ++ inSlot slot second :=
  List.filter_append first second

theorem inSlot_cons_of_eq {slot : Slot} {s : Section} (h : s.slot? = some slot)
    (sections : List Section) : inSlot slot (s :: sections) = s :: inSlot slot sections :=
  List.filter_cons_of_pos (by simpa using h)

theorem inSlot_cons_of_ne {slot : Slot} {s : Section} (h : s.slot? ≠ some slot)
    (sections : List Section) : inSlot slot (s :: sections) = inSlot slot sections :=
  List.filter_cons_of_neg (by simpa using h)

/-- A section of a slot is one that a request is read from. -/
theorem inSlot_known (slot : Slot) (sections : List Section) :
    inSlot slot (known sections) = inSlot slot sections := by
  rw [inSlot, known, List.filter_filter]
  refine List.filter_congr fun s _ => ?_
  by_cases hslot : s.slot? = some slot
  · have hkind : s.kind ≠ .none := fun hnone => by
      rw [Section.slot?_eq_none_iff.2 hnone] at hslot
      cases hslot
    simp [hslot, hkind]
  · simp [hslot]

/-- The same sections apart from those that no request is read from, in the same order within each
slot. -/
structure Rearranged (first second : List Section) : Prop where
  perm : (known first).Perm (known second)
  order (slot : Slot) : inSlot slot first = inSlot slot second

/-- Sections that no request is read from are passed over. -/
theorem Draft.foldlM_known (sections : List Section) (p : Draft) :
    sections.foldlM step p = (known sections).foldlM step p := by
  induction sections generalizing p with
  | nil => rfl
  | cons s sections ih =>
    rw [known, List.filter_cons]
    split_ifs with hs
    · simp only [List.foldlM_cons, ih]
      rfl
    · have hnone : s.slot? = none := Section.slot?_eq_none_iff.2 (by simpa using hs)
      rw [List.foldlM_cons, step_of_slot?_none hnone]
      exact ih p

/-- Sections in the same order within each slot are read in the same way. -/
theorem Draft.foldlM_perm {first second : List Section} (hperm : first.Perm second)
    (hknown : ∀ s ∈ first, s.slot? ≠ none)
    (horder : ∀ slot, inSlot slot first = inSlot slot second) (p : Draft) :
    first.foldlM step p = second.foldlM step p := by
  induction first generalizing second p with
  | nil => rw [hperm.nil_eq]
  | cons s first ih =>
    -- In the second list, the section is the first one of its slot.
    obtain ⟨slot, hslot⟩ := Option.ne_none_iff_exists'.1 (hknown s List.mem_cons_self)
    have hhead : inSlot slot second = s :: inSlot slot first := by
      rw [← horder slot, inSlot_cons_of_eq hslot]
    obtain ⟨before, after, rfl, hbefore, -, hafter⟩ := List.filter_eq_cons_iff.1 hhead
    have hother : ∀ t ∈ before, t.slot? ≠ s.slot? := by
      intro t ht
      have := hbefore t ht
      rw [hslot]
      simpa using this
    have hrest : ∀ other, inSlot other first = inSlot other (before ++ after) := by
      intro other
      have hsame := horder other
      by_cases heq : s.slot? = some other
      · have hnil : inSlot other before = [] :=
          List.filter_eq_nil_iff.2 fun t ht => by simpa [heq] using hother t ht
        rw [inSlot_append, hnil, inSlot_cons_of_eq heq, inSlot_cons_of_eq heq] at hsame
        rw [inSlot_append, hnil]
        exact (List.cons.inj hsame).2
      · rw [inSlot_append, inSlot_cons_of_ne heq, inSlot_cons_of_ne heq] at hsame
        rw [hsame, inSlot_append]
    have hperm' : first.Perm (before ++ after) := (hperm.trans List.perm_middle).cons_inv
    rw [foldlM_middle hother, List.foldlM_cons, List.foldlM_cons]
    congr 1
    funext p'
    exact ih hperm' (fun t ht => hknown t (List.mem_cons_of_mem _ ht)) hrest p'

/-- Documents whose sections differ in the order of slots only, or in sections that no request is
read from, are read as the same request, or refused for the same fault. -/
theorem ofText_eq_of_rearranged {text text' : List Char}
    (h : Rearranged (Section.scan text) (Section.scan text')) : ofText text = ofText text' := by
  have hknown : ∀ s ∈ known (Section.scan text), s.slot? ≠ none := by
    intro s hs
    rw [ne_eq, Section.slot?_eq_none_iff]
    simpa using (List.mem_filter.1 hs).2
  have horder : ∀ slot, inSlot slot (known (Section.scan text)) =
      inSlot slot (known (Section.scan text')) := by
    intro slot
    rw [inSlot_known, inSlot_known, h.order slot]
  rw [ofText, ofText, ofSections_eq_foldlM, ofSections_eq_foldlM, Draft.foldlM_known,
    Draft.foldlM_perm h.perm hknown horder, ← Draft.foldlM_known]

instance (first second : List Section) : Decidable (Rearranged first second) :=
  decidable_of_iff
    ((known first).Perm (known second) ∧
      ∀ slot ∈ Slot.all, inSlot slot first = inSlot slot second)
    ⟨fun h => ⟨h.1, fun slot => h.2 slot (Slot.mem_all slot)⟩,
      fun h => ⟨h.perm, fun slot _ => h.order slot⟩⟩

/-- The sections of a document in which two scripts run after the response. -/
def scriptedSections : List Section := [
  ⟨"meta", ["  name: ping".toList, "  type: http".toList]⟩,
  ⟨"get", ["  url: http://h".toList, "  body: none".toList]⟩,
  ⟨"body:json", ["  1".toList]⟩,
  ⟨"script:post-response", ["  a()".toList]⟩,
  ⟨"tests", ["  b()".toList]⟩]

/-- The sections may stand in the opposite order, beside one that no request is read from. -/
theorem ofText_eq_of_rearranged_reverse :
    let text := Section.print scriptedSections
    let text' := Section.print (⟨"vars", ["  k: v".toList]⟩ :: scriptedSections.reverse)
    Rearranged (Section.scan text) (Section.scan text') ∧ ofText text = ofText text' ∧
      ∃ r, ofText text = .ok r ∧ r.body = none ∧ r.testScript = some "a()\nb()" := by
  intro text text'
  have hscan : Section.scan text = scriptedSections := by decide +kernel
  have hscan' : Section.scan text' = ⟨"vars", ["  k: v".toList]⟩ :: scriptedSections.reverse := by
    decide +kernel
  have h : Rearranged (Section.scan text) (Section.scan text') := by
    rw [hscan, hscan']
    decide +kernel
  refine ⟨h, ofText_eq_of_rearranged h, ?_⟩
  have hread : (ofSections scriptedSections).toOption.map (fun r => (r.body, r.testScript)) =
      some (none, some "a()\nb()") := by decide +kernel
  rw [ofText, hscan]
  cases hof : ofSections scriptedSections with
  | error e => simp [hof, Except.toOption] at hread
  | ok r => simpa [hof, Except.toOption] using hread

end Request

end Courier
