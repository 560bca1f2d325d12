import Courier.Proofs.Url.Generic
import Courier.Url.Basic
import Mathlib.Data.List.Forall2
import Mathlib.Tactic.Common

/-!
# Assembled addresses are taken apart again

`Parts` holds everything an address is assembled from, and `Parts.text` assembles it.
`Parts.WellFormed` says which parts an address can be assembled from: no part holds a character at
which the following one begins.  Placeholders may stand anywhere in the parts; all that is asked of
them is that they do not cross the border of a part.

`Parts.ofText_assembled` says that `Url.ofText` finds the parts again.  Which of the two ways of
splitting it takes depends on the text in ways that are hard to say: on a placeholder at the
beginning, on a protocol, on characters in the host that change in compatibility form, and even on
the number of the placeholders.  The proof does not say which; it rests on two facts.

* `Layout.Separable.splitPlainly_text`: the plain rules find the parts.
* `Layout.Separable.splitGenerically_settles`: the generic syntax finds the same parts or fails in
  a way that leads to the plain rules.
-/

namespace Courier.Url

open Text (joinWith)

/-- What an address is assembled from. -/
structure Parts where
  protocol : Option (List Char)
  host : List Char
  port : Option (List Char)
  segments : List (List Char)
  query : List (List Char × List Char)
  fragment : Option (List Char)

/-- A run of ASCII digits, or one placeholder. -/
def IsPortText (s : List Char) : Prop :=
  (s ≠ [] ∧ ∀ c ∈ s, c.isDigit = true) ∨
    (∃ name, name ≠ [] ∧ (∀ c ∈ name, isNameChar c = true) ∧ s = (Piece.placeholder name).text) ∧
      ∀ c ∈ s, c ∉ "/?#@:[]".toList

namespace Parts

/-- The host, and the port after a colon. -/
def hostPort (p : Parts) : List Char :=
  match p.port with
  | some port => p.host ++ ':' :: port
  | none => p.host

def layout (p : Parts) : Layout := ⟨p.protocol, p.hostPort, p.segments, p.query, p.fragment⟩

/-- The address assembled from the parts. -/
def text (p : Parts) : List Char := p.layout.text

/-- The parts that may hold placeholders, in the order in which they are written. -/
def components (p : Parts) : List (List Char) :=
  p.host :: (p.port.toList ++ (p.segments ++
    (p.query.flatMap (fun pair => [pair.1, pair.2]) ++ p.fragment.toList)))

theorem mem_components_of_pair {p : Parts} {pair : List Char × List Char} (h : pair ∈ p.query)
    {s : List Char} (hs : s ∈ [pair.1, pair.2]) : s ∈ p.components := by
  refine List.mem_cons_of_mem _ (List.mem_append_right _ (List.mem_append_right _
    (List.mem_append_left _ ?_)))
  exact List.mem_flatMap.2 ⟨pair, h, hs⟩

/-- No part holds a character at which the next one begins. -/
structure WellFormed (p : Parts) : Prop where
  protocol : ∀ s, p.protocol = some s → IsProtocol s
  host_ne : p.host ≠ []
  host : ∀ c ∈ p.host, c ∉ "/?#@:[]".toList
  port : ∀ s, p.port = some s → IsPortText s
  segments_ne : ∀ s ∈ p.segments, s ≠ []
  segments : ∀ s ∈ p.segments, ∀ c ∈ s, c ∉ "/?#".toList
  keys : ∀ pair ∈ p.query, ∀ c ∈ pair.1, c ∉ "#&=".toList
  values : ∀ pair ∈ p.query, ∀ c ∈ pair.2, c ∉ "#&".toList
  fragment_ne : ∀ s, p.fragment = some s → s ≠ []
  clean : ∀ s ∈ p.components, ∀ c ∈ s, c ∉ "\t\r\n".toList

variable {p : Parts}

/-! ## Hosts and ports -/


theorem isPort_of_isPortText {port : List Char} (h : IsPortText port) : isPort port = true := by
  rw [isPort, Bool.or_eq_true]
  rcases h with ⟨hne, hdigits⟩ | ⟨⟨name, hne, hname, rfl⟩, -⟩
  · left
    rw [Bool.and_eq_true, List.all_eq_true]
    exact ⟨by simpa using hne, fun c hc => Text.isDecimal_of_isDigit (hdigits c hc)⟩
  · right
    have hlead := leadingName?_placeholder hne hname []
    rw [List.append_nil] at hlead
    rw [hlead]
    simp [Piece.text]

/-- A port holds no character that is significant in addresses. -/
theorem not_mem_of_isPortText {port : List Char} (h : IsPortText port) :
    ∀ c ∈ port, c ∉ "/?#@:[]".toList := by
  rcases h with ⟨-, hdigits⟩ | ⟨-, hfree⟩
  · intro c hc hmem
    have hdigit := hdigits c hc
    rw [(by decide : ∀ x ∈ "/?#@:[]".toList, x.isDigit = false) c hmem] at hdigit
    exact absurd hdigit (by decide)
  · exact hfree

theorem ne_nil_of_isPortText {port : List Char} (h : IsPortText port) : port ≠ [] := by
  rcases h with ⟨hne, -⟩ | ⟨⟨name, -, -, rfl⟩, -⟩
  · exact hne
  · simp [Piece.text]

theorem cutsAt_of_not_mem {sep : Char} {s : List Char} (h : sep ∉ s) : cutsAt sep s = [] := by
  induction s with
  | nil => rfl
  | cons c s ih =>
    rw [List.mem_cons, not_or] at h
    rw [cutsAt, if_neg (Ne.symm h.1), ih h.2, List.map_nil]

theorem cutsAt_append_cons {sep : Char} {before after : List Char} (hb : sep ∉ before)
    (ha : sep ∉ after) : cutsAt sep (before ++ sep :: after) = [(before, after)] := by
  induction before with
  | nil => rw [List.nil_append, cutsAt, if_pos rfl, cutsAt_of_not_mem ha, List.map_nil]
  | cons c before ih =>
    rw [List.mem_cons, not_or] at hb
    rw [List.cons_append, cutsAt, if_neg (Ne.symm hb.1), ih hb.2, List.map_singleton]

namespace WellFormed

theorem colon_not_mem_host (h : p.WellFormed) : ':' ∉ p.host :=
  fun hc => h.host ':' hc (by decide)

theorem newline_not_mem (h : p.WellFormed) {s : List Char} (hs : s ∈ p.components) : '\n' ∉ s :=
  fun hc => h.clean s hs '\n' hc (by decide)

/-- The host and the port are found in what they are assembled to. -/
theorem splitHostPort (h : p.WellFormed) : splitHostPort p.hostPort = (p.host, p.port) := by
  rw [hostPort]
  rcases hp : p.port with _ | port
  · simp only [Url.splitHostPort, cutsAt_of_not_mem h.colon_not_mem_host, List.reverse_nil,
      List.findSome?_nil]
  · have hport := h.port port hp
    have hcolon : ':' ∉ port := fun hc => not_mem_of_isPortText hport ':' hc (by decide)
    have hline : '\n' ∉ p.host := h.newline_not_mem List.mem_cons_self
    have hmem : port ∈ p.components := by simp [components, hp]
    have hfinal : dropFinalNewline port = port := by
      rw [dropFinalNewline, if_neg]
      intro hlast
      exact h.newline_not_mem hmem (List.mem_of_getLast? hlast)
    simp only [Url.splitHostPort, cutsAt_append_cons h.colon_not_mem_host hcolon,
      List.reverse_singleton, List.findSome?_singleton, hfinal, isPort_of_isPortText hport]
    simp [h.host_ne, hline]

/-- The parts are laid out so that they can be told apart. -/
theorem separable (h : p.WellFormed) : p.layout.Separable where
  protocol := h.protocol
  authority_ne := by
    change p.hostPort ≠ []
    rw [hostPort]
    split
    · simp
    · exact h.host_ne
  authority := by
    have hhost : ∀ c ∈ p.host, c ∉ "/?#@[]".toList := fun c hc hmem =>
      h.host c hc ((by decide : ∀ x ∈ "/?#@[]".toList, x ∈ "/?#@:[]".toList) c hmem)
    change ∀ c ∈ p.hostPort, c ∉ "/?#@[]".toList
    rw [hostPort]
    rcases hp : p.port with _ | port
    · exact hhost
    · intro c hc hmem
      rcases List.mem_append.1 hc with hc | hc
      · exact hhost c hc hmem
      · rcases List.mem_cons.1 hc with rfl | hc
        · exact absurd hmem (by decide)
        · exact not_mem_of_isPortText (h.port port hp) c hc
            ((by decide : ∀ x ∈ "/?#@[]".toList, x ∈ "/?#@:[]".toList) c hmem)
  segments_ne := h.segments_ne
  segments := h.segments
  keys := h.keys
  values := h.values
  fragment_ne := h.fragment_ne

end WellFormed

/-! ## Placeholders of the whole address -/

/-- The names of the placeholders in a text, with repetitions. -/
def namesIn (s : List Char) : List (List Char) := placeholderNames (pieces s)

theorem braced_pathText {segments : List (List Char)} (h : ∀ s ∈ segments, Braced s (namesIn s)) :
    Braced (segments.flatMap ('/' :: ·)) (segments.flatMap namesIn) := by
  induction segments with
  | nil => exact .nil
  | cons s segments ih =>
    rw [List.forall_mem_cons] at h
    rw [List.flatMap_cons, List.flatMap_cons, List.cons_append]
    exact .char (by decide) (by decide) (h.1.append (ih h.2))

theorem braced_pairText {pair : List Char × List Char}
    (h : ∀ s ∈ [pair.1, pair.2], Braced s (namesIn s)) :
    Braced (pairText pair) (namesIn pair.1 ++ namesIn pair.2) :=
  (h _ (by simp)).append (.char (by decide) (by decide) (h _ (by simp)))

theorem braced_queryBody {query : List (List Char × List Char)}
    (h : ∀ pair ∈ query, ∀ s ∈ [pair.1, pair.2], Braced s (namesIn s)) :
    Braced (joinWith ['&'] (query.map pairText))
      (query.flatMap fun pair => namesIn pair.1 ++ namesIn pair.2) := by
  induction query with
  | nil => exact .nil
  | cons pair query ih =>
    rw [List.forall_mem_cons] at h
    have hpair := braced_pairText h.1
    have hquery := ih h.2
    cases query with
    | nil => simpa [joinWith] using hpair
    | cons next query =>
      rw [List.map_cons, List.map_cons, joinWith, ← List.map_cons, List.flatMap_cons,
        List.append_assoc]
      · exact hpair.append (.char (by decide) (by decide) hquery)
      · simp

/-- The placeholders of the address are those of its parts, in order. -/
theorem WellFormed.braced_text (h : p.WellFormed)
    (hbraced : ∀ s ∈ p.components, Braced s (namesIn s)) :
    Braced p.text (p.components.flatMap namesIn) := by
  have hprotocol := h.separable.braced_protocolText
  have hhostPort : Braced p.hostPort (namesIn p.host ++ p.port.toList.flatMap namesIn) := by
    have hhost := hbraced p.host List.mem_cons_self
    rw [hostPort]
    rcases hp : p.port with _ | port
    · simpa using hhost
    · have hport := hbraced port (by simp [components, hp])
      simpa using hhost.append (.char (c := ':') (by decide) (by decide) hport)
  have hpath : Braced p.layout.pathText (p.segments.flatMap namesIn) :=
    braced_pathText fun s hs => hbraced s
      (List.mem_cons_of_mem _ (List.mem_append_right _ (List.mem_append_left _ hs)))
  have hquery : Braced p.layout.queryText
      (p.query.flatMap fun pair => namesIn pair.1 ++ namesIn pair.2) := by
    rw [Layout.queryText]
    split_ifs with hq
    · rw [show p.query = [] from hq]
      exact .nil
    · exact .char (by decide) (by decide) (braced_queryBody fun pair hpair s hs =>
        hbraced s (mem_components_of_pair hpair hs))
  have hfragment : Braced p.layout.fragmentText (p.fragment.toList.flatMap namesIn) := by
    rw [Layout.fragmentText, show p.layout.fragment = p.fragment from rfl]
    rcases hf : p.fragment with _ | fragment
    · exact .nil
    · have hb := hbraced fragment (by simp [components, hf])
      simpa using Braced.char (c := '#') (by decide) (by decide) hb
  have hall : Braced p.text _ :=
    hprotocol.append (hhostPort.append (hpath.append (hquery.append hfragment)))
  simpa [components, List.flatMap_assoc] using hall

/-- Every part of the layout is braced. -/
theorem braces_layout (hbraced : ∀ s ∈ p.components, Braced s (namesIn s)) :
    p.layout.Braces := by
  intro s hs
  rcases List.mem_cons.1 hs with rfl | hs
  · change ∃ names, Braced p.hostPort names
    have hhost := hbraced p.host List.mem_cons_self
    rw [hostPort]
    rcases hp : p.port with _ | port
    · exact ⟨_, hhost⟩
    · have hport := hbraced port (by simp [components, hp])
      exact ⟨_, hhost.append (.char (by decide) (by decide) hport)⟩
  · exact ⟨_, hbraced s (List.mem_cons_of_mem _ (List.mem_append_right _ hs))⟩

/-- The parts bring all characters of the address but those of the protocol and those between the
parts. -/
theorem mem_text {c : Char} (hc : c ∈ p.text) :
    c ∈ p.layout.protocolText ∨ c ∈ ":/?&=#".toList ∨ ∃ s ∈ p.components, c ∈ s := by
  have hquery : c ∈ p.layout.queryText →
      c ∈ ":/?&=#".toList ∨ ∃ pair ∈ p.query, c ∈ pair.1 ∨ c ∈ pair.2 := by
    intro hc
    rw [Layout.queryText] at hc
    split_ifs at hc with hq
    · simp at hc
    · rcases List.mem_cons.1 hc with rfl | hc
      · exact .inl (by decide)
      · rcases Text.mem_joinWith hc with hc | ⟨piece, hpiece, hc⟩
        · rw [List.mem_singleton.1 hc]
          exact .inl (by decide)
        · obtain ⟨pair, hpair, rfl⟩ := List.mem_map.1 hpiece
          rcases List.mem_append.1 hc with hc | hc
          · exact .inr ⟨pair, hpair, .inl hc⟩
          · rcases List.mem_cons.1 hc with rfl | hc
            · exact .inl (by decide)
            · exact .inr ⟨pair, hpair, .inr hc⟩
  have htext : p.text = p.layout.protocolText ++ (p.hostPort ++
      (p.layout.pathText ++ (p.layout.queryText ++ p.layout.fragmentText))) := rfl
  rw [htext, List.mem_append, List.mem_append, List.mem_append, List.mem_append] at hc
  rcases hc with hc | hc | hc | hc | hc
  · exact .inl hc
  · rw [hostPort] at hc
    rcases hp : p.port with _ | port <;> rw [hp] at hc
    · exact .inr (.inr ⟨p.host, List.mem_cons_self, hc⟩)
    · rcases List.mem_append.1 hc with hc | hc
      · exact .inr (.inr ⟨p.host, List.mem_cons_self, hc⟩)
      · rcases List.mem_cons.1 hc with rfl | hc
        · exact .inr (.inl (by decide))
        · exact .inr (.inr ⟨port, by simp [components, hp], hc⟩)
  · obtain ⟨s, hs, hc⟩ := List.mem_flatMap.1 hc
    have hmem : s ∈ p.components :=
      List.mem_cons_of_mem _ (List.mem_append_right _ (List.mem_append_left _ hs))
    rcases List.mem_cons.1 hc with rfl | hc
    · exact .inr (.inl (by decide))
    · exact .inr (.inr ⟨s, hmem, hc⟩)
  · rcases hquery hc with hc | ⟨pair, hpair, hc⟩
    · exact .inr (.inl hc)
    · rcases hc with hc | hc
      · exact .inr (.inr ⟨pair.1, mem_components_of_pair hpair (by simp), hc⟩)
      · exact .inr (.inr ⟨pair.2, mem_components_of_pair hpair (by simp), hc⟩)
  · rw [Layout.fragmentText, show p.layout.fragment = p.fragment from rfl] at hc
    rcases hf : p.fragment with _ | fragment <;> rw [hf] at hc
    · simp at hc
    · rcases List.mem_cons.1 hc with rfl | hc
      · exact .inr (.inl (by decide))
      · exact .inr (.inr ⟨fragment, by simp [components, hf], hc⟩)

/-- The text is as clean as the parts. -/
theorem WellFormed.clean_text (h : p.WellFormed) : ∀ c ∈ p.text, c ∉ "\t\r\n".toList := by
  intro c hc hmem
  rcases mem_text hc with hc | hc | ⟨s, hs, hc⟩
  · exact h.separable.not_mem_protocolText
      ((by decide : ∀ x ∈ "\t\r\n".toList, isSchemeChar x = false) c hmem)
      ((by decide : ∀ x ∈ "\t\r\n".toList, x ∉ "://".toList) c hmem) hc
  · exact (by decide : ∀ x ∈ "\t\r\n".toList, x ∉ ":/?&=#".toList) c hmem hc
  · exact h.clean s hs c hc hmem

/-- Going through a list and noting what is new leaves the first occurrences. -/
theorem foldl_distinct (names seen : List (List Char)) :
    names.foldl (fun seen name => if seen.contains name then seen else seen ++ [name]) seen =
      seen ++ (names.filter fun name => !seen.contains name).eraseDups := by
  induction names generalizing seen with
  | nil => simp
  | cons name names ih =>
    rw [List.foldl_cons, ih]
    by_cases hseen : seen.contains name = true
    · rw [if_pos hseen, List.filter_cons_of_neg (by simpa using hseen)]
    · rw [if_neg hseen, List.filter_cons_of_pos (by simpa using hseen), List.eraseDups_cons,
        List.append_assoc, List.filter_filter, List.singleton_append]
      congr 3
      refine List.filter_congr fun x _ => ?_
      simp [Bool.and_comm, beq_eq_decide]

theorem distinct_eq_eraseDups (names : List (List Char)) : distinct names = names.eraseDups := by
  rw [distinct, foldl_distinct]
  simp

/-! ## Taking apart what was assembled -/

/-- What is read when an address is taken apart into the parts.  `names` are the names of the
placeholders in the parts, with repetitions. -/
def url (p : Parts) (names : List (List Char)) : Url where
  raw := String.ofList p.text
  protocol := p.protocol.map String.ofList
  host := [String.ofList p.host]
  port := p.port.map String.ofList
  path := strings p.segments
  query := p.query.map fun (key, value) => ⟨String.ofList key, String.ofList value⟩
  hash := p.fragment.map String.ofList
  placeholders := strings names.eraseDups

theorem namesIn_eq {components names : List (List Char)} {ns : List (List (List Char))}
    (h : List.Forall₂ Braced components ns) (hnames : names = ns.flatten) :
    (∀ s ∈ components, Braced s (namesIn s)) ∧ components.flatMap namesIn = names := by
  subst hnames
  induction h with
  | nil => simp
  | cons hs tail ih =>
    obtain ⟨hall, hflat⟩ := ih
    have hname := hs.placeholderNames
    refine ⟨?_, ?_⟩
    · rw [List.forall_mem_cons]
      exact ⟨by rwa [namesIn, hname], hall⟩
    · rw [List.flatMap_cons, hflat, List.flatten_cons, namesIn, hname]

/-- An address that is assembled from parts is taken apart into the same parts, whichever way of
splitting it takes. -/
theorem ofText_assembled (h : p.WellFormed) {names : List (List (List Char))}
    (hbraces : List.Forall₂ Braced p.components names) :
    Url.ofText p.text = .ok (p.url names.flatten) := by
  obtain ⟨hbraced, hflat⟩ := namesIn_eq hbraces rfl
  have hwhole := h.braced_text hbraced
  have hplaceholders : placeholdersOf p.text = strings names.flatten.eraseDups := by
    rw [placeholdersOf, variablesOf, hwhole.placeholderNames, hflat, distinct_eq_eraseDups]
  have hplain : splitPlainly p.text = p.url names.flatten := by
    have hsplit := h.separable.splitPlainly_text
    rw [show p.layout.authority = p.hostPort from rfl, h.splitHostPort] at hsplit
    rw [url, ← hplaceholders]
    exact hsplit
  have hgeneric : splitGenerically p.text = .ok (p.url names.flatten) ∨
      ∃ fault, splitGenerically p.text = .error fault ∧ fault ≠ .token .unknown := by
    have hbraces := braces_layout hbraced
    rcases hp : p.protocol with _ | protocol
    · exact .inr (h.separable.splitGenerically_error hbraces hwhole h.clean_text hp)
    · have hport : p.port ≠ some [] := fun hnil => ne_nil_of_isPortText (h.port [] hnil) rfl
      have hsettles := h.separable.splitGenerically_settles hbraces hwhole h.clean_text hp
        h.splitHostPort h.colon_not_mem_host h.host_ne hport
      rw [url, ← hplaceholders, hp]
      exact hsettles
  rw [Url.ofText]
  split_ifs
  · rw [hplain]
  · rcases hgeneric with hok | ⟨fault, herror, hne⟩
    · rw [hok]
    · rw [herror, hplain]
      split
      · rename_i heq
        cases heq
      · rename_i heq
        exact absurd (Except.error.inj heq) hne
      · rfl

/-- A host that looks like a token of the mask stays as it is. -/
theorem ofText_assembled_tokenLike :
    Url.ofText
        "http://__var0__.com:\x7b\x7bport\x7d\x7d/\x7b\x7ba\x7d\x7d?q=\x7b\x7ba\x7d\x7d".toList =
      .ok {
        raw := "http://__var0__.com:\x7b\x7bport\x7d\x7d/\x7b\x7ba\x7d\x7d?q=\x7b\x7ba\x7d\x7d"
        protocol := some "http"
        host := ["__var0__.com"]
        port := some "\x7b\x7bport\x7d\x7d"
        path := ["\x7b\x7ba\x7d\x7d"]
        query := [⟨"q", "\x7b\x7ba\x7d\x7d"⟩]
        hash := none
        placeholders := ["port", "a"] } := by
  have hname : Braced "\x7b\x7ba\x7d\x7d".toList ["a".toList] :=
    .placeholder (by decide : "a".toList ≠ []) (by decide) .nil
  have hport : Braced "\x7b\x7bport\x7d\x7d".toList ["port".toList] :=
    .placeholder (by decide : "port".toList ≠ []) (by decide) .nil
  have hwell : WellFormed ⟨some "http".toList, "__var0__.com".toList,
      some "\x7b\x7bport\x7d\x7d".toList, ["\x7b\x7ba\x7d\x7d".toList],
      [("q".toList, "\x7b\x7ba\x7d\x7d".toList)], none⟩ :=
    { protocol := by
        rintro s ⟨⟩
        exact ⟨⟨'h', by decide⟩, by decide⟩
      host_ne := by decide
      host := by decide
      port := by
        rintro s ⟨⟩
        exact .inr ⟨⟨"port".toList, by decide⟩, by decide⟩
      segments_ne := by decide
      segments := by decide
      keys := by decide
      values := by decide
      fragment_ne := by decide
      clean := by decide }
  exact ofText_assembled hwell (.cons (braced_of_not_mem (by decide) (by decide)) (.cons hport
    (.cons hname (.cons (braced_of_not_mem (by decide) (by decide)) (.cons hname .nil)))))

end Parts

end Courier.Url
