import Courier.Proofs.Url.Layout
import Courier.Proofs.Url.Masking
import Mathlib.Data.List.Forall2

/-!
# Generic splitting of masked addresses

`Url.splitGenerically` masks an address, splits it by the generic syntax and restores the parts.
For an address that is laid out in parts whose braces all belong to placeholders, this module shows
that the masked address is laid out in the masked parts (`Layout.exists_masked`), that these are as
separable as the parts themselves (`Layout.Masked.separable`), and that restoring them gives the
parts back.  `splitGenerically_settles` puts this together: the parts are found, or splitting
fails in a way that the address can recover from.
-/

namespace Courier.Url

open Text (joinWith)

/-! ## Masked lists of parts -/

theorem Masked.eq_of_not_mem {m : Mask} {s t : List Char} (hs : '\x7b' ∉ s) (h : Masked m s t) :
    t = s := by
  induction h with
  | nil => rfl
  | char hopen tail ih =>
    rw [List.mem_cons, not_or] at hs
    rw [ih hs.2]
  | placeholder => simp [Piece.text] at hs

/-- Masking brings no character of a class into a text that holds none, if none is in tokens. -/
theorem Masked.not_mem {m : Mask} {s t : List Char} (hm : Mark m.mark) (h : Masked m s t)
    {chars : List Char} (hchars : ∀ c ∈ chars, isTokenChar c = false)
    (hs : ∀ c ∈ s, c ∉ chars) : ∀ c ∈ t, c ∉ chars := by
  intro c hc hmem
  rcases h.mem hm hc with hc | hc
  · exact hs c hc hmem
  · rw [hchars c hmem] at hc
    exact absurd hc (by decide)

/-- Segments are masked one by one. -/
theorem Masked.split_segments {m : Mask} {segments : List (List Char)}
    (hs : ∀ s ∈ segments, ∃ names, Braced s names) {b t : List Char}
    (h : Masked m (segments.flatMap ('/' :: ·) ++ b) t) :
    ∃ segments' tb, t = segments'.flatMap ('/' :: ·) ++ tb ∧
      List.Forall₂ (Masked m) segments segments' ∧ Masked m b tb := by
  induction segments generalizing t with
  | nil => exact ⟨[], t, rfl, .nil, h⟩
  | cons s segments ih =>
    obtain ⟨names, hbraced⟩ := hs s List.mem_cons_self
    rw [List.flatMap_cons, List.append_assoc, List.cons_append] at h
    obtain ⟨t', rfl, h'⟩ := h.cons (by decide)
    obtain ⟨s', t'', rfl, hs', h''⟩ := h'.split hbraced
    obtain ⟨segments', tb, rfl, hrest, hb⟩ :=
      ih (fun s hmem => hs s (List.mem_cons_of_mem _ hmem)) h''
    exact ⟨s' :: segments', tb, by simp, .cons hs' hrest, hb⟩

/-- The relation of masking for the two parts of a pair. -/
def MaskedPair (m : Mask) (pair pair' : List Char × List Char) : Prop :=
  Masked m pair.1 pair'.1 ∧ Masked m pair.2 pair'.2

theorem Masked.split_pair {m : Mask} {pair : List Char × List Char}
    (hkey : ∃ names, Braced pair.1 names) (hvalue : ∃ names, Braced pair.2 names)
    {b t : List Char} (h : Masked m (pairText pair ++ b) t) :
    ∃ pair' tb, t = pairText pair' ++ tb ∧ MaskedPair m pair pair' ∧ Masked m b tb := by
  obtain ⟨names, hkey⟩ := hkey
  obtain ⟨names', hvalue⟩ := hvalue
  rw [pairText, List.append_assoc, List.cons_append] at h
  obtain ⟨key', t', rfl, hk, h'⟩ := h.split hkey
  obtain ⟨t'', rfl, h''⟩ := h'.cons (by decide)
  obtain ⟨value', tb, rfl, hv, hb⟩ := h''.split hvalue
  exact ⟨(key', value'), tb, by simp [pairText], ⟨hk, hv⟩, hb⟩

/-- The pairs of a query are masked one by one. -/
theorem Masked.split_pairs {m : Mask} {pairs : List (List Char × List Char)}
    (hs : ∀ pair ∈ pairs, (∃ names, Braced pair.1 names) ∧ ∃ names, Braced pair.2 names)
    {b t : List Char} (h : Masked m (joinWith ['&'] (pairs.map pairText) ++ b) t) :
    ∃ pairs' tb, t = joinWith ['&'] (pairs'.map pairText) ++ tb ∧
      List.Forall₂ (MaskedPair m) pairs pairs' ∧ Masked m b tb := by
  induction pairs generalizing t with
  | nil => exact ⟨[], t, rfl, .nil, h⟩
  | cons pair pairs ih =>
    obtain ⟨hkey, hvalue⟩ := hs pair List.mem_cons_self
    have hrest : ∀ p ∈ pairs, (∃ names, Braced p.1 names) ∧ ∃ names, Braced p.2 names :=
      fun p hp => hs p (List.mem_cons_of_mem _ hp)
    cases pairs with
    | nil =>
      obtain ⟨pair', tb, rfl, hpair, hb⟩ := h.split_pair hkey hvalue
      exact ⟨[pair'], tb, rfl, .cons hpair .nil, hb⟩
    | cons next pairs =>
      rw [List.map_cons, List.map_cons, joinWith, ← List.map_cons, List.append_assoc,
        List.append_assoc, List.singleton_append] at h
      · obtain ⟨pair', t', rfl, hpair, h'⟩ := h.split_pair hkey hvalue
        obtain ⟨t'', rfl, h''⟩ := h'.cons (by decide)
        obtain ⟨pairs', tb, rfl, hpairs, hb⟩ := ih hrest h''
        cases hpairs with
        | @cons _ next' _ pairs' hnext hpairs =>
          refine ⟨pair' :: next' :: pairs', tb, ?_, .cons hpair (.cons hnext hpairs), hb⟩
          simp [joinWith]
      · simp

/-! ## Masked layouts -/

namespace Layout

/-- The parts of a layout that may hold placeholders. -/
def components (l : Layout) : List (List Char) :=
  l.authority :: (l.segments ++ (l.query.flatMap (fun pair => [pair.1, pair.2]) ++
    l.fragment.toList))

theorem mem_components_of_segment {l : Layout} {s : List Char} (h : s ∈ l.segments) :
    s ∈ l.components := List.mem_cons_of_mem _ (List.mem_append_left _ h)

theorem mem_components_of_pair {l : Layout} {pair : List Char × List Char} (h : pair ∈ l.query)
    {s : List Char} (hs : s ∈ [pair.1, pair.2]) : s ∈ l.components := by
  refine List.mem_cons_of_mem _ (List.mem_append_right _ (List.mem_append_left _ ?_))
  exact List.mem_flatMap.2 ⟨pair, h, hs⟩

theorem mem_components_of_fragment {l : Layout} {s : List Char} (h : l.fragment = some s) :
    s ∈ l.components := by simp [components, h]

/-- The parts of the second layout are those of the first one under a mask. -/
structure Masked (m : Mask) (l l' : Layout) : Prop where
  protocol : l'.protocol = l.protocol
  authority : Url.Masked m l.authority l'.authority
  segments : List.Forall₂ (Url.Masked m) l.segments l'.segments
  query : List.Forall₂ (MaskedPair m) l.query l'.query
  fragment : Option.Rel (Url.Masked m) l.fragment l'.fragment

variable {l l' : Layout} {m : Mask}

/-- Every part that may hold placeholders is braced. -/
def Braces (l : Layout) : Prop := ∀ s ∈ l.components, ∃ names, Braced s names

theorem Separable.braced_protocolText (h : l.Separable) : Braced l.protocolText [] :=
  braced_of_not_mem (h.not_mem_protocolText (by decide) (by decide))
    (h.not_mem_protocolText (by decide) (by decide))

theorem Braces.pairs (h : l.Braces) :
    ∀ pair ∈ l.query, (∃ names, Braced pair.1 names) ∧ ∃ names, Braced pair.2 names := by
  intro pair hpair
  exact ⟨h _ (mem_components_of_pair hpair (by simp)), h _ (mem_components_of_pair hpair (by simp))⟩

theorem Braces.segments (h : l.Braces) : ∀ s ∈ l.segments, ∃ names, Braced s names :=
  fun s hs => h s (mem_components_of_segment hs)

/-- The query and the hash are masked part by part. -/
theorem Braces.exists_masked_query (h : l.Braces) {t : List Char}
    (ht : Url.Masked m (l.queryText ++ l.fragmentText) t) :
    ∃ query fragment, t = (⟨none, [], [], query, fragment⟩ : Layout).queryText ++
        (⟨none, [], [], query, fragment⟩ : Layout).fragmentText ∧
      List.Forall₂ (MaskedPair m) l.query query ∧
      Option.Rel (Url.Masked m) l.fragment fragment := by
  have hfragment : ∀ {t : List Char}, Url.Masked m l.fragmentText t →
      ∃ fragment, t = (⟨none, [], [], [], fragment⟩ : Layout).fragmentText ∧
        Option.Rel (Url.Masked m) l.fragment fragment := by
    intro t ht
    rw [fragmentText] at ht
    rcases hl : l.fragment with _ | fragment <;> rw [hl] at ht
    · cases ht
      exact ⟨none, rfl, .none⟩
    · obtain ⟨fragment', rfl, hf⟩ := ht.cons (c := '#') (by decide)
      exact ⟨some fragment', rfl, .some hf⟩
  rw [queryText] at ht
  split_ifs at ht with hq
  · obtain ⟨fragment, rfl, hf⟩ := hfragment ht
    exact ⟨[], fragment, rfl, by rw [hq]; exact .nil, hf⟩
  · rw [List.cons_append, queryBody] at ht
    obtain ⟨t', rfl, ht'⟩ := ht.cons (by decide)
    obtain ⟨query, t'', rfl, hquery, ht''⟩ := ht'.split_pairs h.pairs
    obtain ⟨fragment, rfl, hf⟩ := hfragment ht''
    have hne : query ≠ [] := by
      rintro rfl
      rw [List.forall₂_nil_right_iff] at hquery
      exact hq hquery
    exact ⟨query, fragment, by simp [queryText, hne, queryBody, fragmentText], hquery, hf⟩

/-- A masked layout is the layout of the masked parts. -/
theorem Separable.exists_masked (h : l.Separable) (hbraces : l.Braces) {t : List Char}
    (ht : Url.Masked m l.text t) : ∃ l' : Layout, t = l'.text ∧ l.Masked m l' := by
  obtain ⟨t₀, t₁, rfl, h₀, h₁⟩ := ht.split h.braced_protocolText
  obtain rfl := h₀.eq_of_not_mem (h.not_mem_protocolText (by decide) (by decide))
  obtain ⟨names, hauthority⟩ := hbraces l.authority List.mem_cons_self
  obtain ⟨authority, t₂, rfl, ha, h₂⟩ := h₁.split hauthority
  obtain ⟨segments, t₃, rfl, hsegments, h₃⟩ := h₂.split_segments hbraces.segments
  obtain ⟨query, fragment, rfl, hquery, hfragment⟩ := hbraces.exists_masked_query h₃
  exact ⟨⟨l.protocol, authority, segments, query, fragment⟩, rfl, rfl, ha, hsegments, hquery,
    hfragment⟩

/-! ## Masked parts are separable -/

theorem exists_of_mem_right {α β : Type} {R : α → β → Prop} {xs : List α} {ys : List β}
    (h : List.Forall₂ R xs ys) {y : β} (hy : y ∈ ys) : ∃ x ∈ xs, R x y := by
  induction h with
  | nil => simp at hy
  | cons hxy tail ih =>
    rcases List.mem_cons.1 hy with rfl | hy
    · exact ⟨_, List.mem_cons_self, hxy⟩
    · obtain ⟨x, hx, hR⟩ := ih hy
      exact ⟨x, List.mem_cons_of_mem _ hx, hR⟩

theorem forall₂_imp_of_mem {α β : Type} {R S : α → β → Prop} {xs : List α} {ys : List β}
    (h : List.Forall₂ R xs ys) (himp : ∀ x y, x ∈ xs → R x y → S x y) :
    List.Forall₂ S xs ys := by
  induction h with
  | nil => exact .nil
  | cons hxy tail ih =>
    exact .cons (himp _ _ List.mem_cons_self hxy)
      (ih fun x y hx => himp x y (List.mem_cons_of_mem _ hx))

/-- The parts of a masked layout are as separable as the parts of the layout. -/
theorem Masked.separable (hm : Mark m.mark) (hmasked : l.Masked m l') (h : l.Separable) :
    l'.Separable where
  protocol := by
    rw [hmasked.protocol]
    exact h.protocol
  authority_ne := hmasked.authority.ne_nil h.authority_ne
  authority := hmasked.authority.not_mem hm (by decide) h.authority
  segments_ne := by
    intro s' hs'
    obtain ⟨s, hs, hR⟩ := exists_of_mem_right hmasked.segments hs'
    exact hR.ne_nil (h.segments_ne s hs)
  segments := by
    intro s' hs'
    obtain ⟨s, hs, hR⟩ := exists_of_mem_right hmasked.segments hs'
    exact hR.not_mem hm (by decide) (h.segments s hs)
  keys := by
    intro pair' hpair'
    obtain ⟨pair, hpair, hR⟩ := exists_of_mem_right hmasked.query hpair'
    exact hR.1.not_mem hm (by decide) (h.keys pair hpair)
  values := by
    intro pair' hpair'
    obtain ⟨pair, hpair, hR⟩ := exists_of_mem_right hmasked.query hpair'
    exact hR.2.not_mem hm (by decide) (h.values pair hpair)
  fragment_ne := by
    intro s' hs'
    have hfragment := hmasked.fragment
    rw [hs'] at hfragment
    rcases hl : l.fragment with _ | s
    · rw [hl] at hfragment
      cases hfragment
    · rw [hl] at hfragment
      cases hfragment with
      | some hR => exact hR.ne_nil (h.fragment_ne s hl)

/-! ## Parts of the text -/

/-- Every part of a layout stands in its text. -/
theorem infix_text_of_mem {s : List Char} (h : s ∈ l.components) : s <:+: l.text := by
  have hrest : ∀ {t : List Char}, t <:+: l.rest → t <:+: l.text := fun ht =>
    ht.trans (((List.suffix_append _ _).trans (List.suffix_append _ _)).isInfix)
  rw [components, List.mem_cons, List.mem_append, List.mem_append] at h
  rcases h with rfl | h | h | h
  · exact ⟨l.protocolText, l.rest, by simp [text]⟩
  · obtain ⟨before, after, hsplit⟩ := List.append_of_mem h
    refine hrest ⟨before.flatMap ('/' :: ·) ++ ['/'],
      after.flatMap ('/' :: ·) ++ (l.queryText ++ l.fragmentText), ?_⟩
    simp [rest, pathText, hsplit]
  · obtain ⟨pair, hpair, hs⟩ := List.mem_flatMap.1 h
    have hne : l.query ≠ [] := List.ne_nil_of_mem hpair
    have hpairText : s <:+: pairText pair := by
      rcases List.mem_cons.1 hs with rfl | hs
      · exact ⟨[], '=' :: pair.2, by simp [pairText]⟩
      · rw [List.mem_singleton.1 hs]
        exact ⟨pair.1 ++ ['='], [], by simp [pairText]⟩
    have hbody : s <:+: l.queryBody :=
      hpairText.trans (Text.infix_joinWith _ (List.mem_map_of_mem hpair))
    refine hrest (hbody.trans ⟨l.pathText ++ ['?'], l.fragmentText, ?_⟩)
    simp [rest, queryText, hne]
  · have hfragment : l.fragment = some s := by simpa using h
    exact hrest ⟨l.pathText ++ (l.queryText ++ ['#']), [], by simp [rest, fragmentText, hfragment]⟩

end Layout

/-! ## Splitting that the address can recover from -/

/-- The computation gives the value, or fails in a way that an address recovers from. -/
def Settles {α : Type} (x : Except Fault α) (a : α) : Prop :=
  x = .ok a ∨ ∃ fault, x = .error fault ∧ fault ≠ .token .unknown

theorem Settles.bind {α β : Type} {x : Except Fault α} {f : α → Except Fault β} {a : α} {b : β}
    (hx : Settles x a) (hf : Settles (f a) b) : Settles (x >>= f) b := by
  rcases hx with rfl | ⟨fault, rfl, hne⟩
  · exact hf
  · exact .inr ⟨fault, rfl, hne⟩

theorem Settles.mapM {α β : Type} {f : α → Except Fault β} {xs : List α} {ys : List β}
    (h : List.Forall₂ (fun y x => Settles (f x) y) ys xs) : Settles (xs.mapM f) ys := by
  induction h with
  | nil => exact .inl rfl
  | cons hxy tail ih =>
    rw [List.mapM_cons]
    exact hxy.bind (ih.bind (.inl rfl))

/-- Restoring a masked part settles on the part. -/
theorem Masked.settles {m : Mask} (hm : Mark m.mark) {s t : List Char} (h : Masked m s t)
    (hfree : ¬ m.mark <:+: s) :
    Settles (((m.restore t).mapError Fault.token).map String.ofList) (String.ofList s) := by
  rcases h.covers.restore hm hfree with hok | ⟨digits, herror⟩
  · rw [hok]
    exact .inl rfl
  · rw [herror]
    exact .inr ⟨.token (.tooLong digits), rfl, by simp⟩

theorem dropEndWhile_of_not_mem {c : Char} {s : List Char} (h : c ∉ s) :
    Text.dropEndWhile (· == c) s = s := by
  have hrev : s.reverse.dropWhile (· == c) = s.reverse := by
    rcases hs : s.reverse with _ | ⟨d, t⟩
    · rfl
    · have hmem : d ∈ s := by
        rw [← List.mem_reverse, hs]
        exact List.mem_cons_self
      have hne : d ≠ c := fun hd => h (hd ▸ hmem)
      rw [List.dropWhile_cons_of_neg (by simpa using hne)]
  rw [Text.dropEndWhile, hrev, List.reverse_reverse]

/-- An authority without brackets is split as host and port. -/
theorem splitAuthority_of_splitHostPort {authority host : List Char} {port : Option (List Char)}
    (hopen : '[' ∉ authority) (hsplit : splitHostPort authority = (host, port))
    (hhost : ':' ∉ host) : splitAuthority authority = .ok (host, port) := by
  have hhead : authority.head? ≠ some '[' := fun hh => hopen (List.mem_of_head? hh)
  rw [splitAuthority, if_neg hhead, hsplit]
  rcases port with _ | port
  · simp only [dropEndWhile_of_not_mem hhost]
    rw [if_neg (by simpa using hhost)]
  · simp only [dropEndWhile_of_not_mem hhost]

namespace Layout

variable {l : Layout}

/-- The mask for the text of a layout gives the text of a masked layout, which is as clean. -/
theorem Separable.exists_masked_text (h : l.Separable) (hbraces : l.Braces)
    {names : List (List Char)} (hwhole : Braced l.text names)
    (hclean : ∀ c ∈ l.text, c ∉ "\t\r\n".toList) :
    ∃ l' : Layout, (Mask.ofText l.text).apply l.text = l'.text ∧
      l.Masked (Mask.ofText l.text) l' ∧ ∀ c ∈ l'.text, c ∉ "\t\r\n".toList := by
  have hmasked : Url.Masked (Mask.ofText l.text) l.text ((Mask.ofText l.text).apply l.text) := by
    refine hwhole.masked ?_
    rw [Mask.ofText, hwhole.placeholderNames, List.drop_zero]
  obtain ⟨l', htext, hl'⟩ := h.exists_masked hbraces hmasked
  refine ⟨l', htext, hl', ?_⟩
  rw [← htext]
  exact hmasked.not_mem (markFor_spec l.text).1 (by decide) hclean

/-- Without a protocol, splitting by the generic syntax fails. -/
theorem Separable.splitGenerically_error (h : l.Separable) (hbraces : l.Braces)
    {names : List (List Char)} (hwhole : Braced l.text names)
    (hclean : ∀ c ∈ l.text, c ∉ "\t\r\n".toList) (hp : l.protocol = none) :
    ∃ fault, splitGenerically l.text = .error fault ∧ fault ≠ .token .unknown := by
  obtain ⟨l', htext, hl', hclean'⟩ := h.exists_masked_text hbraces hwhole hclean
  have h' := hl'.separable (markFor_spec l.text).1 h
  rw [splitGenerically, htext]
  rcases href : Reference.ofText l'.text with fault | ref
  · exact ⟨.authority fault, rfl, by simp⟩
  · have hempty : (ref.scheme.isEmpty || ref.authority.isEmpty) = true := by
      simpa using h'.ofText_text_of_no_protocol (hl'.protocol.trans hp) hclean' href
    refine ⟨.noAuthority, ?_, by simp⟩
    simp only [Except.mapError, bind, Except.bind, hempty, if_true]
    rfl

/-- Splitting by the generic syntax settles on the parts of a layout with a protocol. -/
theorem Separable.splitGenerically_settles (h : l.Separable) (hbraces : l.Braces)
    {names : List (List Char)} (hwhole : Braced l.text names)
    (hclean : ∀ c ∈ l.text, c ∉ "\t\r\n".toList) {protocol host : List Char}
    {port : Option (List Char)} (hp : l.protocol = some protocol)
    (hsplit : splitHostPort l.authority = (host, port)) (hhost : ':' ∉ host) (hne : host ≠ [])
    (hport : port ≠ some []) :
    Settles (splitGenerically l.text)
      { raw := String.ofList l.text
        protocol := some (String.ofList protocol)
        host := [String.ofList host]
        port := port.map String.ofList
        path := strings l.segments
        query := l.query.map fun (key, value) => ⟨String.ofList key, String.ofList value⟩
        hash := l.fragment.map String.ofList
        placeholders := placeholdersOf l.text } := by
  have hspec := markFor_spec l.text
  have hm : Mark (Mask.ofText l.text).mark := hspec.1
  have hfree : ∀ s ∈ l.components, ¬ (Mask.ofText l.text).mark <:+: s :=
    fun s hs hi => hspec.2 (hi.trans (infix_text_of_mem hs))
  obtain ⟨l', htext, hl', hclean'⟩ := h.exists_masked_text hbraces hwhole hclean
  have h' := hl'.separable hm h
  have href := h'.ofText_text (hl'.protocol.trans hp) hclean'
  rw [splitGenerically, htext]
  refine Settles.bind (a := ⟨protocol, l'.authority, l'.pathText, l'.queryBody,
    l'.fragment.getD []⟩) ?_ ?_
  · rw [href]
    rcases checkForm l'.authority with fault | ⟨⟩
    · exact .inr ⟨.authority fault, rfl, by simp⟩
    · exact .inl rfl
  · have hpe : protocol ≠ [] := by
      rintro rfl
      obtain ⟨⟨c, hc, -⟩, -⟩ := h.protocol [] hp
      simp at hc
    have hparts : ¬ (protocol.isEmpty || l'.authority.isEmpty) = true := by
      simp [hpe, h'.authority_ne]
    have hsegments : Url.segments l'.pathText = l'.segments := by
      simpa using h'.segments_append_pathText (by simp : '/' ∉ ([] : List Char))
    simp only [hparts, if_false, h'.dropCredentials, hsegments, h'.splitQuery_queryBody,
      Bool.false_eq_true]
    refine (hl'.authority.settles hm (hfree _ List.mem_cons_self)).bind ?_
    refine Settles.bind (a := (host, port)) (.inl ?_) ?_
    · rw [String.toList_ofList]
      exact splitAuthority_of_splitHostPort (h.not_mem_authority (by decide)) hsplit hhost
    refine Settles.bind (a := strings l.segments) (.mapM ?_) ?_
    · rw [strings, List.forall₂_map_left_iff]
      exact forall₂_imp_of_mem hl'.segments fun s t hs hst =>
        hst.settles hm (hfree s (mem_components_of_segment hs))
    refine Settles.bind (a := l.query.map fun (key, value) =>
      ⟨String.ofList key, String.ofList value⟩) (.mapM ?_) ?_
    · rw [List.forall₂_map_left_iff]
      refine forall₂_imp_of_mem hl'.query fun pair pair' hpair hmp => ?_
      have hkey := hfree pair.1 (mem_components_of_pair hpair List.mem_cons_self)
      have hvalue := hfree pair.2 (mem_components_of_pair hpair (by simp))
      exact (hmp.1.settles hm hkey).bind ((hmp.2.settles hm hvalue).bind (.inl rfl))
    have hempty : host.isEmpty = false := by simpa using hne
    have hrecord : (port.bind nonempty?) = port.map String.ofList := by
      rcases port with _ | _ | ⟨c, port⟩
      · rfl
      · exact absurd rfl hport
      · rfl
    simp only [hempty, hrecord, Bool.false_eq_true, if_false]
    have hfragment := hl'.fragment
    rcases hf : l.fragment with _ | fragment <;> rw [hf] at hfragment
    · generalize l'.fragment = fragment' at hfragment
      cases hfragment
      exact .inl rfl
    · rcases hf' : l'.fragment with _ | fragment' <;> rw [hf'] at hfragment
      · cases hfragment
      · cases hfragment with
        | some hmf =>
          have hne' : fragment'.isEmpty = false := by simpa using h'.fragment_ne _ hf'
          rw [Option.getD_some, hne', if_neg Bool.false_ne_true]
          have hrestored := hmf.settles hm (hfree _ (mem_components_of_fragment hf))
          rcases hrestored with hok | ⟨fault, herror, hfault⟩
          · rw [hok]
            exact .inl rfl
          · rw [herror]
            exact .inr ⟨fault, rfl, hfault⟩

end Layout

end Courier.Url
