import Courier.Proofs.Outcome
import Courier.Proofs.Text.Cut
import Courier.Url.Basic
import Mathlib.Tactic.Common

/-!
# Addresses as they are laid out

A `Layout` holds the parts of an address in the order in which they are written, with the host and
its port still together.  `Layout.Separable` says that no part holds a character at which the parts
are separated.  The two ways of splitting an address find the parts of such a layout again:
`splitPlainly_text` for the plain rules, `Reference.ofText_text` and
`Reference.ofText_text_of_no_protocol` for the generic syntax.
-/

namespace Courier.Url

open Text (cutAt cutAtD splitOn joinWith)

structure Layout where
  protocol : Option (List Char)
  authority : List Char
  segments : List (List Char)
  query : List (List Char × List Char)
  fragment : Option (List Char)

/-- A pair as it is written in a query. -/
def pairText (pair : List Char × List Char) : List Char := pair.1 ++ '=' :: pair.2

namespace Layout

def protocolText (l : Layout) : List Char :=
  match l.protocol with
  | some protocol => protocol ++ "://".toList
  | none => []

/-- The segments, each after a slash. -/
def pathText (l : Layout) : List Char := l.segments.flatMap ('/' :: ·)

/-- The pairs of the query between ampersands. -/
def queryBody (l : Layout) : List Char := joinWith ['&'] (l.query.map pairText)

def queryText (l : Layout) : List Char := if l.query = [] then [] else '?' :: l.queryBody

def fragmentText (l : Layout) : List Char :=
  match l.fragment with
  | some fragment => '#' :: fragment
  | none => []

/-- What follows the authority. -/
def rest (l : Layout) : List Char := l.pathText ++ (l.queryText ++ l.fragmentText)

def text (l : Layout) : List Char := l.protocolText ++ (l.authority ++ l.rest)

end Layout

/-- A lower-case letter and then lower-case letters, digits, plus and minus signs and points. -/
def IsProtocol (s : List Char) : Prop :=
  (∃ c, s.head? = some c ∧ c.isLower) ∧
    ∀ c ∈ s, c.isLower ∨ c.isDigit ∨ c ∈ "+-.".toList

/-- No part of the layout holds a character that ends it. -/
structure Layout.Separable (l : Layout) : Prop where
  protocol : ∀ s, l.protocol = some s → IsProtocol s
  authority_ne : l.authority ≠ []
  authority : ∀ c ∈ l.authority, c ∉ "/?#@[]".toList
  segments_ne : ∀ s ∈ l.segments, s ≠ []
  segments : ∀ s ∈ l.segments, ∀ c ∈ s, c ∉ "/?#".toList
  keys : ∀ pair ∈ l.query, ∀ c ∈ pair.1, c ∉ "#&=".toList
  values : ∀ pair ∈ l.query, ∀ c ∈ pair.2, c ∉ "#&".toList
  fragment_ne : ∀ s, l.fragment = some s → s ≠ []

/-! ## The parts of a layout -/

namespace Layout

variable {l : Layout}

theorem Separable.hash_not_mem_pathText (h : l.Separable) : '#' ∉ l.pathText := by
  intro hc
  obtain ⟨s, hs, hc⟩ := List.mem_flatMap.1 hc
  rcases List.mem_cons.1 hc with hc | hc
  · exact absurd hc (by decide)
  · exact h.segments s hs '#' hc (by decide)

theorem Separable.mark_not_mem_pathText (h : l.Separable) : '?' ∉ l.pathText := by
  intro hc
  obtain ⟨s, hs, hc⟩ := List.mem_flatMap.1 hc
  rcases List.mem_cons.1 hc with hc | hc
  · exact absurd hc (by decide)
  · exact h.segments s hs '?' hc (by decide)

theorem Separable.hash_not_mem_queryText (h : l.Separable) : '#' ∉ l.queryText := by
  intro hc
  rw [queryText] at hc
  split at hc
  · simp at hc
  · rcases List.mem_cons.1 hc with hc | hc
    · exact absurd hc (by decide)
    · rcases Text.mem_joinWith hc with hc | ⟨piece, hp, hc⟩
      · exact absurd hc (by decide)
      · obtain ⟨⟨key, value⟩, hpair, rfl⟩ := List.mem_map.1 hp
        rcases List.mem_append.1 hc with hc | hc
        · exact h.keys _ hpair '#' hc (by decide)
        · rcases List.mem_cons.1 hc with hc | hc
          · exact absurd hc (by decide)
          · exact h.values _ hpair '#' hc (by decide)

/-- The hash is cut off at its sign. -/
theorem Separable.cutAt_hash (h : l.Separable) {before : List Char} (hb : '#' ∉ before) :
    cutAt '#' (before ++ (l.pathText ++ (l.queryText ++ l.fragmentText))) =
      (before ++ (l.pathText ++ l.queryText), l.fragment) := by
  have hfree : '#' ∉ before ++ (l.pathText ++ l.queryText) := by
    rw [List.mem_append, List.mem_append]
    rintro (hc | hc | hc)
    · exact hb hc
    · exact h.hash_not_mem_pathText hc
    · exact h.hash_not_mem_queryText hc
  rw [fragmentText]
  rcases l.fragment with _ | fragment
  · rw [List.append_nil, Text.cutAt_of_not_mem hfree]
  · simpa only [List.append_assoc] using Text.cutAt_append_cons hfree fragment

/-- The query is cut off at its sign. -/
theorem Separable.cutAt_mark (h : l.Separable) {before : List Char} (hb : '?' ∉ before) :
    cutAt '?' (before ++ (l.pathText ++ l.queryText)) =
      (before ++ l.pathText, if l.query = [] then none else some l.queryBody) := by
  have hfree : '?' ∉ before ++ l.pathText := by
    rw [List.mem_append]
    rintro (hc | hc)
    · exact hb hc
    · exact h.mark_not_mem_pathText hc
  rw [queryText]
  split
  · rw [List.append_nil, Text.cutAt_of_not_mem hfree]
  · rw [← List.append_assoc, Text.cutAt_append_cons hfree]

/-- The query splits into its pairs. -/
theorem Separable.splitQuery_queryBody (h : l.Separable) : splitQuery l.queryBody = l.query := by
  rw [splitQuery, queryBody]
  rcases hq : l.query with _ | ⟨first, more⟩
  · rfl
  · rw [← hq]
    have hfree : ∀ piece ∈ l.query.map pairText, '&' ∉ piece := by
      intro piece hp hc
      obtain ⟨⟨key, value⟩, hpair, rfl⟩ := List.mem_map.1 hp
      rcases List.mem_append.1 hc with hc | hc
      · exact h.keys _ hpair '&' hc (by decide)
      · rcases List.mem_cons.1 hc with hc | hc
        · exact absurd hc (by decide)
        · exact h.values _ hpair '&' hc (by decide)
    have hne : l.query.map pairText ≠ [] := by simp [hq]
    have hsplit := Text.splitOn_joinWith hne hfree
    have hfilter : (l.query.map pairText).filter (fun s => !s.isEmpty) =
        l.query.map pairText := by
      refine List.filter_eq_self.2 fun piece hp => ?_
      obtain ⟨pair, -, rfl⟩ := List.mem_map.1 hp
      simp [pairText]
    rw [hsplit, hfilter, List.map_map]
    refine (List.map_congr_left fun pair hpair => ?_).trans (List.map_id l.query)
    exact Text.cutAtD_append_cons (fun hc => h.keys pair hpair '=' hc (by decide)) _

theorem Separable.segments_append_pathText (h : l.Separable) {first : List Char}
    (hf : '/' ∉ first) : Url.segments (first ++ l.pathText) =
      if first = [] then l.segments else first :: l.segments := by
  have hfilter : l.segments.filter (fun s => !s.isEmpty) = l.segments :=
    List.filter_eq_self.2 fun s hs => by simp [h.segments_ne s hs]
  rw [Url.segments, pathText,
    Text.splitOn_append_flatMap hf fun s hs hc => h.segments s hs '/' hc (by decide)]
  rcases first with _ | ⟨c, first⟩
  · simpa using hfilter
  · simpa using hfilter

/-! ## What follows the authority -/

/-- What follows the authority is empty or begins with a character that ends an authority, and it
does not begin with two slashes. -/
theorem Separable.rest_cases (h : l.Separable) :
    (l.rest = [] ∨ ∃ c tail, l.rest = c :: tail ∧ endsAuthority c = true) ∧
      ¬ "//".toList <+: l.rest := by
  rw [rest, pathText]
  rcases hs : l.segments with _ | ⟨first, more⟩
  · rw [List.flatMap_nil, List.nil_append, queryText, fragmentText]
    split_ifs with hq
    · rcases l.fragment with _ | fragment
      · exact ⟨.inl rfl, by simp⟩
      · exact ⟨.inr ⟨'#', fragment, rfl, by decide⟩, by simp⟩
    · exact ⟨.inr ⟨'?', _, rfl, by decide⟩, by simp⟩
  · have hmem : first ∈ l.segments := hs ▸ List.mem_cons_self
    obtain ⟨c, tail, rfl⟩ := List.exists_cons_of_ne_nil (h.segments_ne first hmem)
    have hc : c ≠ '/' := by
      rintro rfl
      exact h.segments _ hmem '/' List.mem_cons_self (by decide)
    exact ⟨.inr ⟨'/', _, rfl, by decide⟩, by simp [Ne.symm hc]⟩

/-- No text that begins with an authority has a scheme with two slashes after it. -/
theorem Separable.not_slashes_of_scheme (h : l.Separable) {authority before after : List Char}
    (ha : ∀ c ∈ authority, endsAuthority c = false)
    (hcut : authority ++ l.rest = before ++ ':' :: after) (hscheme : isScheme before = true) :
    ¬ "//".toList <+: after := by
  obtain ⟨hrest, hslashes⟩ := h.rest_cases
  have hends : endsAuthority ':' = false := by decide
  rcases List.append_eq_append_iff.1 hcut with ⟨extra, rfl, hextra⟩ | ⟨extra, rfl, hextra⟩
  · -- The colon stands in what follows the authority, so the scheme would hold its end.
    rcases hrest with hr | ⟨c, tail, hr, hc⟩
    · rw [hr] at hextra
      simp at hextra
    · rw [hr] at hextra
      rcases extra with _ | ⟨d, extra⟩
      · obtain ⟨rfl, -⟩ := List.cons.inj hextra
        rw [hends] at hc
        exact absurd hc (by decide)
      · obtain ⟨rfl, -⟩ := List.cons.inj hextra
        simp only [isScheme, Bool.and_eq_true, List.all_append, List.all_cons] at hscheme
        have hchar : isSchemeChar c = true := hscheme.2.2.1
        simp only [endsAuthority, Bool.or_eq_true, beq_iff_eq] at hc
        rcases hc with (rfl | rfl) | rfl <;> exact absurd hchar (by decide)
  · -- The colon stands in the authority or right after it.
    rcases extra with _ | ⟨d, extra⟩
    · rw [List.nil_append] at hextra
      rcases hrest with hr | ⟨c, tail, hr, hc⟩
      · rw [hr] at hextra
        simp at hextra
      · rw [hr] at hextra
        obtain ⟨rfl, -⟩ := List.cons.inj hextra
        rw [hends] at hc
        exact absurd hc (by decide)
    · obtain ⟨rfl, rfl⟩ := List.cons.inj hextra
      rcases extra with _ | ⟨e, extra⟩
      · simpa using hslashes
      · rintro ⟨x, hx⟩
        have he : e = '/' := by simpa using (congrArg List.head? hx).symm
        have := ha '/' (by simp [he])
        exact absurd this (by decide)

end Layout

/-! ## Protocols -/

theorem isUpper_iff (c : Char) : c.isUpper = true ↔ 65 ≤ c.toNat ∧ c.toNat ≤ 90 := by
  show decide ('A'.val ≤ c.val ∧ c.val ≤ 'Z'.val) = true ↔ _
  rw [decide_eq_true_iff, UInt32.le_iff_toNat_le, UInt32.le_iff_toNat_le]
  rfl

theorem isLower_iff (c : Char) : c.isLower = true ↔ 97 ≤ c.toNat ∧ c.toNat ≤ 122 := by
  show (decide ('a'.val ≤ c.val) && decide (c.val ≤ 'z'.val)) = true ↔ _
  rw [Bool.and_eq_true, decide_eq_true_iff, decide_eq_true_iff, UInt32.le_iff_toNat_le,
    UInt32.le_iff_toNat_le]
  rfl

theorem isAlpha_of_isLower {c : Char} (h : c.isLower) : c.isAlpha = true := by
  show (c.isUpper || c.isLower) = true
  rw [h, Bool.or_true]

theorem IsProtocol.isScheme {s : List Char} (h : IsProtocol s) : isScheme s = true := by
  obtain ⟨⟨c, hc, hlower⟩, hall⟩ := h
  have halpha := isAlpha_of_isLower hlower
  have hchars : s.all isSchemeChar = true := by
    rw [List.all_eq_true]
    intro x hx
    rcases hall x hx with hx | hx | hx
    · simp [isSchemeChar, Char.isAlphanum, isAlpha_of_isLower hx]
    · simp [isSchemeChar, Char.isAlphanum, hx]
    · exact (by decide : ∀ x ∈ "+-.".toList, isSchemeChar x = true) x hx
  simp [Url.isScheme, hc, halpha, hchars]

/-- A scheme holds no character outside the class of schemes. -/
theorem not_mem_of_isScheme {s : List Char} (h : isScheme s = true) {c : Char}
    (hc : isSchemeChar c = false) : c ∉ s := by
  intro hmem
  simp only [isScheme, Bool.and_eq_true, List.all_eq_true] at h
  rw [h.2 c hmem] at hc
  exact absurd hc (by decide)

theorem IsProtocol.not_mem {s : List Char} (h : IsProtocol s) {c : Char}
    (hc : isSchemeChar c = false) : c ∉ s := not_mem_of_isScheme h.isScheme hc

theorem head_of_isScheme {s : List Char} (h : isScheme s = true) :
    ∃ c rest, s = c :: rest ∧ c.isAlpha = true := by
  rw [isScheme, Bool.and_eq_true] at h
  cases s with
  | nil => simp at h
  | cons c rest => exact ⟨c, rest, rfl, by simpa using h.1⟩

/-- The scheme is found before its colon. -/
theorem splitScheme_of_isScheme {scheme : List Char} (h : isScheme scheme = true)
    (rest : List Char) : splitScheme (scheme ++ ':' :: rest) = (scheme.map Char.toLower, rest) := by
  rw [splitScheme, Text.cutAt_append_cons (not_mem_of_isScheme h (by decide))]
  exact if_pos h

theorem toLower_of_not_isUpper {c : Char} (h : c.isUpper = false) : c.toLower = c :=
  dif_neg (of_decide_eq_false h)

theorem not_isUpper_of_isLower {c : Char} (h : c.isLower) : c.isUpper = false := by
  rw [isLower_iff] at h
  rw [Bool.eq_false_iff, ne_eq, isUpper_iff]
  omega

theorem not_isUpper_of_isDigit {c : Char} (h : c.isDigit) : c.isUpper = false := by
  simp only [Char.isDigit, Bool.and_eq_true, decide_eq_true_eq, ge_iff_le,
    UInt32.le_iff_toNat_le] at h
  have hnine : '9'.val.toNat = 57 := rfl
  have hval : c.toNat = c.val.toNat := rfl
  rw [Bool.eq_false_iff, ne_eq, isUpper_iff]
  omega

/-- A protocol is in lower case. -/
theorem IsProtocol.map_toLower {s : List Char} (h : IsProtocol s) : s.map Char.toLower = s := by
  have hlow : ∀ c ∈ s, c.toLower = c := by
    intro c hc
    refine toLower_of_not_isUpper ?_
    rcases h.2 c hc with hc | hc | hc
    · exact not_isUpper_of_isLower hc
    · exact not_isUpper_of_isDigit hc
    · exact (by decide : ∀ x ∈ "+-.".toList, x.isUpper = false) c hc
  exact (List.map_congr_left hlow).trans (List.map_id s)

/-! ## Schemes and authorities -/

theorem filter_eq_self_of_clean {s : List Char} (h : ∀ c ∈ s, c ∉ "\t\r\n".toList) :
    s.filter (fun c => c != '\t' && c != '\r' && c != '\n') = s := by
  refine List.filter_eq_self.2 fun c hc => ?_
  have := h c hc
  simp only [Bool.and_eq_true, bne_iff_ne]
  refine ⟨⟨?_, ?_⟩, ?_⟩ <;> rintro rfl <;> exact this (by decide)

/-- The authority ends where what follows it begins. -/
theorem span_authority {authority rest : List Char}
    (hfree : ∀ c ∈ authority, endsAuthority c = false)
    (hrest : rest = [] ∨ ∃ c tail, rest = c :: tail ∧ endsAuthority c = true) :
    (authority ++ rest).takeWhile (!endsAuthority ·) = authority ∧
      (authority ++ rest).dropWhile (!endsAuthority ·) = rest := by
  have hall : ∀ c ∈ authority, (!endsAuthority c) = true := by
    intro c hc
    rw [hfree c hc]
    rfl
  rw [List.takeWhile_append_of_pos hall, List.dropWhile_append_of_pos hall]
  rcases hrest with hr | ⟨c, tail, hr, hc⟩
  · simp [hr]
  · rw [hr, List.takeWhile_cons_of_neg (by simp [hc]), List.dropWhile_cons_of_neg (by simp [hc])]
    simp

/-- The generic syntax finds scheme and authority, unless the brackets of the authority or its
compatibility form are refused. -/
theorem Reference.ofText_of_isScheme {scheme authority rest : List Char}
    (hscheme : isScheme scheme = true) (hfree : ∀ c ∈ authority, endsAuthority c = false)
    (hrest : rest = [] ∨ ∃ c tail, rest = c :: tail ∧ endsAuthority c = true)
    (hclean : ∀ c ∈ scheme ++ ':' :: '/' :: '/' :: (authority ++ rest), c ∉ "\t\r\n".toList) :
    Reference.ofText (scheme ++ ':' :: '/' :: '/' :: (authority ++ rest)) = do
      checkBrackets authority
      checkForm authority
      return {
        scheme := scheme.map Char.toLower
        authority
        path := (cutAtD '?' (cutAtD '#' rest).1).1
        query := (cutAtD '?' (cutAtD '#' rest).1).2
        fragment := (cutAtD '#' rest).2 } := by
  obtain ⟨c, tail, rfl, halpha⟩ := head_of_isScheme hscheme
  have hc : 32 < c.toNat := by
    have hcase : (c.isUpper || c.isLower) = true := halpha
    rw [Bool.or_eq_true, isUpper_iff, isLower_iff] at hcase
    omega
  have hcleaned : clean (c :: tail ++ ':' :: '/' :: '/' :: (authority ++ rest)) =
      c :: tail ++ ':' :: '/' :: '/' :: (authority ++ rest) := by
    rw [clean, List.cons_append, List.dropWhile_cons_of_neg (by simpa using hc)]
    exact filter_eq_self_of_clean hclean
  have hspan := span_authority hfree hrest
  rw [Reference.ofText, hcleaned, splitScheme_of_isScheme hscheme]
  simp only [hspan.1, hspan.2]

/-! ## Plain rules -/

namespace Layout

variable {l : Layout}

theorem Separable.not_mem_protocolText (h : l.Separable) {c : Char} (hc : isSchemeChar c = false)
    (hcolon : c ∉ "://".toList) : c ∉ l.protocolText := by
  rw [protocolText]
  rcases hp : l.protocol with _ | protocol
  · simp
  · rw [List.mem_append]
    rintro (hmem | hmem)
    · exact (h.protocol protocol hp).not_mem hc hmem
    · exact hcolon hmem

theorem Separable.not_mem_authority (h : l.Separable) {c : Char} (hc : c ∈ "/?#@[]".toList) :
    c ∉ l.authority := fun hmem => h.authority c hmem hc

theorem Separable.endsAuthority_authority (h : l.Separable) :
    ∀ c ∈ l.authority, endsAuthority c = false := by
  intro c hc
  by_contra hends
  simp only [endsAuthority, Bool.not_eq_false, Bool.or_eq_true, beq_iff_eq] at hends
  refine h.authority c hc ?_
  rcases hends with (rfl | rfl) | rfl <;> decide

/-- The layout without query and hash. -/
def upToPath (l : Layout) : Layout := { l with query := [], fragment := none }

theorem Separable.upToPath (h : l.Separable) : l.upToPath.Separable where
  protocol := h.protocol
  authority_ne := h.authority_ne
  authority := h.authority
  segments_ne := h.segments_ne
  segments := h.segments
  keys := by simp [Layout.upToPath]
  values := by simp [Layout.upToPath]
  fragment_ne := by simp [Layout.upToPath]

theorem rest_upToPath (l : Layout) : l.upToPath.rest = l.pathText := by
  simp [rest, Layout.upToPath, pathText, queryText, fragmentText]

/-- The protocol is found where there is one. -/
theorem Separable.splitProtocol (h : l.Separable) :
    splitProtocol (l.protocolText ++ (l.authority ++ l.pathText)) =
      (l.protocol, l.authority ++ l.pathText) := by
  rw [protocolText]
  rcases hp : l.protocol with _ | protocol
  · rw [List.nil_append, Url.splitProtocol]
    split
    · rename_i before after hcut
      split_ifs with hscheme
      · have happend := (Text.cutAt_eq_some hcut).2
        rw [← rest_upToPath] at happend
        refine absurd ?_
          (h.upToPath.not_slashes_of_scheme h.endsAuthority_authority happend hscheme)
        exact ⟨after, rfl⟩
      · rfl
    · rfl
  · have hprotocol := h.protocol protocol hp
    have hcut : cutAt ':' (protocol ++ "://".toList ++ (l.authority ++ l.pathText)) =
        (protocol, some ('/' :: '/' :: (l.authority ++ l.pathText))) := by
      rw [List.append_assoc]
      exact Text.cutAt_append_cons (hprotocol.not_mem (by decide)) _
    simp only [Url.splitProtocol, hcut, hprotocol.isScheme, if_true]

/-- Splitting by plain rules finds the parts of a layout. -/
theorem Separable.splitPlainly_text (h : l.Separable) :
    splitPlainly l.text =
      { raw := String.ofList l.text
        protocol := l.protocol.map String.ofList
        host := [String.ofList (splitHostPort l.authority).1]
        port := (splitHostPort l.authority).2.map String.ofList
        path := strings l.segments
        query := l.query.map fun (key, value) => ⟨String.ofList key, String.ofList value⟩
        hash := l.fragment.map String.ofList
        placeholders := placeholdersOf l.text } := by
  have hfront : ∀ c ∈ "?#".toList, c ∉ l.protocolText ++ l.authority := by
    intro c hc
    have hscheme := (by decide : ∀ x ∈ "?#".toList, isSchemeChar x = false) c hc
    have hcolon := (by decide : ∀ x ∈ "?#".toList, x ∉ "://".toList) c hc
    have hauthority := (by decide : ∀ x ∈ "?#".toList, x ∈ "/?#@[]".toList) c hc
    rw [List.mem_append, not_or]
    exact ⟨h.not_mem_protocolText hscheme hcolon, h.not_mem_authority hauthority⟩
  have htext : l.text =
      (l.protocolText ++ l.authority) ++ (l.pathText ++ (l.queryText ++ l.fragmentText)) := by
    simp [text, rest]
  have hhash := h.cutAt_hash (hfront '#' (by decide))
  have hmark := h.cutAt_mark (hfront '?' (by decide))
  have hprotocol := h.splitProtocol
  rw [← List.append_assoc] at hprotocol
  have hsegments : Url.segments (l.authority ++ l.pathText) = l.authority :: l.segments := by
    rw [h.segments_append_pathText (h.not_mem_authority (by decide)), if_neg h.authority_ne]
  have hquery : ((if l.query = [] then none else some l.queryBody).map parameters).getD [] =
      l.query.map fun (key, value) => ⟨String.ofList key, String.ofList value⟩ := by
    split_ifs with hq
    · simp [hq]
    · rw [Option.map_some, Option.getD_some, parameters, h.splitQuery_queryBody]
  rw [← htext] at hhash
  simp only [splitPlainly, hhash, hmark, hprotocol, hsegments, hquery, List.head?_cons,
    List.tail_cons, strings, List.map_cons, List.map_nil]

/-! ## Generic syntax -/

theorem Separable.checkBrackets (h : l.Separable) : checkBrackets l.authority = .ok () := by
  have hopen : l.authority.contains '[' = false := by
    simpa using h.not_mem_authority (c := '[') (by decide)
  have hclose : l.authority.contains ']' = false := by
    simpa using h.not_mem_authority (c := ']') (by decide)
  rw [Url.checkBrackets, hopen, hclose]

theorem Separable.dropCredentials (h : l.Separable) :
    dropCredentials l.authority = l.authority := by
  rw [Url.dropCredentials, Text.cutAtLast?_of_not_mem (h.not_mem_authority (by decide))]

/-- What follows the authority is taken apart into path, query and fragment. -/
theorem Separable.cutAtD_rest (h : l.Separable) :
    cutAtD '#' l.rest = (l.pathText ++ l.queryText, l.fragment.getD []) ∧
      cutAtD '?' (l.pathText ++ l.queryText) = (l.pathText, l.queryBody) := by
  have hhash := h.cutAt_hash (by simp : '#' ∉ ([] : List Char))
  have hmark := h.cutAt_mark (by simp : '?' ∉ ([] : List Char))
  simp only [List.nil_append] at hhash hmark
  rw [cutAtD, rest, hhash, cutAtD, hmark]
  refine ⟨rfl, ?_⟩
  split_ifs with hq
  · simp [queryBody, hq, joinWith]
  · rfl

/-- The generic syntax finds the parts of a layout with a protocol, unless the compatibility form of
its authority is refused. -/
theorem Separable.ofText_text (h : l.Separable) {protocol : List Char}
    (hp : l.protocol = some protocol) (hclean : ∀ c ∈ l.text, c ∉ "\t\r\n".toList) :
    Reference.ofText l.text = (checkForm l.authority).map fun _ =>
      ⟨protocol, l.authority, l.pathText, l.queryBody, l.fragment.getD []⟩ := by
  have hprotocol := h.protocol protocol hp
  have htext : l.text = protocol ++ ':' :: '/' :: '/' :: (l.authority ++ l.rest) := by
    simp [text, protocolText, hp]
  rw [htext] at hclean
  rw [htext, Reference.ofText_of_isScheme hprotocol.isScheme h.endsAuthority_authority
    h.rest_cases.1 hclean, h.checkBrackets, h.cutAtD_rest.1, h.cutAtD_rest.2,
    hprotocol.map_toLower]
  rcases checkForm l.authority with fault | ⟨⟩ <;> rfl

/-- In a layout without protocol the generic syntax finds no scheme or no authority. -/
theorem Separable.ofText_text_of_no_protocol (h : l.Separable) (hp : l.protocol = none)
    (hclean : ∀ c ∈ l.text, c ∉ "\t\r\n".toList) {ref : Reference}
    (href : Reference.ofText l.text = .ok ref) : ref.scheme = [] ∨ ref.authority = [] := by
  have htext : l.text = l.authority ++ l.rest := by simp [text, protocolText, hp]
  obtain ⟨authority, hauthority, hcleaned⟩ : ∃ authority : List Char,
      (∀ c ∈ authority, endsAuthority c = false) ∧ clean l.text = authority ++ l.rest := by
    have hrest : l.rest.dropWhile (·.toNat ≤ 32) = l.rest := by
      rcases h.rest_cases.1 with hr | ⟨c, tail, hr, hc⟩
      · simp [hr]
      · rw [hr, List.dropWhile_cons_of_neg]
        simp only [endsAuthority, Bool.or_eq_true, beq_iff_eq] at hc
        rcases hc with (rfl | rfl) | rfl <;> decide
    have hdrop : l.text.dropWhile (·.toNat ≤ 32) =
        l.authority.dropWhile (·.toNat ≤ 32) ++ l.rest := by
      rw [htext, List.dropWhile_append, hrest]
      split_ifs with hempty
      · rw [List.isEmpty_iff.1 hempty, List.nil_append]
      · rfl
    refine ⟨l.authority.dropWhile (·.toNat ≤ 32), fun c hc => ?_, ?_⟩
    · exact h.endsAuthority_authority c ((List.dropWhile_sublist _).subset hc)
    · rw [clean, hdrop, filter_eq_self_of_clean]
      intro c hc
      rw [← hdrop] at hc
      exact hclean c ((List.dropWhile_sublist _).subset hc)
  rcases hs : splitScheme (authority ++ l.rest) with ⟨scheme, after⟩
  have hafter : scheme = [] ∨ ¬ "//".toList <+: after := by
    rw [splitScheme] at hs
    split at hs
    · rename_i before tail hcut
      split_ifs at hs with hscheme
      · obtain ⟨-, rfl⟩ := Prod.mk.inj hs
        have happend := (Text.cutAt_eq_some hcut).2
        exact .inr (h.not_slashes_of_scheme hauthority happend hscheme)
      · exact .inl (Prod.mk.inj hs).1.symm
    · exact .inl (Prod.mk.inj hs).1.symm
  rw [Reference.ofText, hcleaned, hs] at href
  simp only [Outcome.bind_eq_ok] at href
  obtain ⟨-, -, -, -, href⟩ := href
  cases href
  refine hafter.imp_right fun hslashes => ?_
  split
  · exact absurd ⟨_, rfl⟩ hslashes
  · rfl

end Layout

end Courier.Url
