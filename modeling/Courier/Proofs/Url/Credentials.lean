import Courier.Proofs.Url.Assembly
import Courier.Proofs.Url.Recovery

/-!
# Credentials in addresses

An address may hold credentials before its host, up to the last `@` of the authority.  The generic
syntax drops them.  The plain rules know nothing of credentials, and they split every address that
the generic syntax refuses.

* `mem_name_of_splitGenerically`: under the generic syntax an `@` comes into the host with a
  placeholder only.
* `Credentialed.host_splitPlainly` and `Credentialed.at_mem_host`: under the plain rules the
  credentials of an address (`Credentialed`) stay in its host.
* `Credentialed.exists_splitGenerically_iff`: the addresses without placeholders that the generic
  syntax accepts.
* `ofText_credentialed` puts this together.

That a placeholder in place of a port is one of the address needs an argument of its own: whatever
is written as a placeholder is read as one (`placeholder_mem_pieces`).
-/

namespace Courier.Url

open Outcome (Avoids avoids_ok bind_eq_ok map_eq_ok mapError_eq_ok)
open Text (cutAt isDecimal)

/-! ## Where placeholders stand -/

theorem leadingName?_ne_nil {s name : List Char} (h : leadingName? s = some name) : name ≠ [] := by
  unfold leadingName? at h
  split at h
  · simp only [Option.ite_none_right_eq_some, Bool.and_eq_true] at h
    obtain ⟨⟨hne, -⟩, hname⟩ := h
    rw [Option.some.inj hname] at hne
    simpa using hne
  · cases h

/-- A placeholder does not reach over the beginning of another one. -/
theorem prefix_of_placeholder_append {name other before after rest : List Char}
    (hother : ∀ c ∈ other, isNameChar c = true) (hne : before ≠ [])
    (h : before ++ ((Piece.placeholder name).text ++ after) =
      (Piece.placeholder other).text ++ rest) :
    ∃ before', before = (Piece.placeholder other).text ++ before' := by
  have htext : ∀ n, (Piece.placeholder n).text = '\x7b' :: '\x7b' :: (n ++ "\x7d\x7d".toList) := by
    intro n
    rw [Piece.text, List.append_assoc]
    rfl
  -- An opening brace stands only at the beginning of a placeholder.
  have hfree : '\x7b' ∉ other ++ "\x7d\x7d".toList := by
    intro hmem
    rcases List.mem_append.1 hmem with hmem | hmem
    · exact absurd (hother _ hmem) (by decide)
    · exact absurd hmem (by decide)
  rw [htext, htext] at h
  rw [htext]
  rcases List.append_eq_append_iff.1 h with ⟨extra, hextra, hafter⟩ | ⟨extra, hextra, -⟩
  · cases extra with
    | nil => exact ⟨[], by rw [hextra, List.append_nil, List.append_nil]⟩
    | cons d extra =>
      exfalso
      obtain ⟨hd, hbehind⟩ := List.cons.inj hafter
      subst hd
      apply hfree
      cases before with
      | nil => exact absurd rfl hne
      | cons b before =>
        obtain ⟨-, hextra⟩ := List.cons.inj hextra
        cases before with
        | nil =>
          -- It begins at the second brace of the other one, whose name would begin with a brace.
          obtain ⟨-, hextra⟩ := List.cons.inj hextra
          cases extra with
          | nil => simp at hextra
          | cons d extra =>
            obtain ⟨hd, -⟩ := List.cons.inj hbehind
            subst hd
            rw [hextra]
            exact List.mem_cons_self
        | cons b' before =>
          obtain ⟨-, hextra⟩ := List.cons.inj hextra
          rw [hextra]
          exact List.mem_append_right _ List.mem_cons_self
  · exact ⟨extra, hextra⟩

/-- What is written as a placeholder is read as one, wherever it stands. -/
theorem placeholder_mem_pieces {name : List Char} (hne : name ≠ [])
    (hname : ∀ c ∈ name, isNameChar c = true) (before after : List Char) :
    .placeholder name ∈ pieces (before ++ ((Piece.placeholder name).text ++ after)) := by
  generalize hs : before ++ ((Piece.placeholder name).text ++ after) = s
  induction s using pieces.induct generalizing before with
  | case1 => simp [Piece.text] at hs
  | case2 c rest other hother ih =>
    rw [pieces, hother]
    by_cases hbefore : before = []
    · subst hbefore
      rw [List.nil_append] at hs
      rw [← hs, leadingName?_placeholder hne hname] at hother
      obtain rfl := Option.some.inj hother
      exact List.mem_cons_self
    · obtain ⟨htext, hchars⟩ := leadingName?_eq_some hother
      have hwhole := hs.trans htext
      obtain ⟨before', rfl⟩ := prefix_of_placeholder_append hchars hbefore hwhole
      rw [List.append_assoc] at hwhole
      exact List.mem_cons_of_mem _ (ih before' (List.append_cancel_left hwhole))
  | case3 c rest hnone ih =>
    rw [pieces, hnone]
    cases before with
    | nil =>
      rw [List.nil_append] at hs
      rw [← hs, leadingName?_placeholder hne hname] at hnone
      cases hnone
    | cons b before =>
      obtain ⟨-, hs⟩ := List.cons.inj hs
      exact List.mem_cons_of_mem _ (ih before hs)

theorem mem_placeholderNames {ps : List Piece} {name : List Char} :
    name ∈ placeholderNames ps ↔ .placeholder name ∈ ps := by
  rw [placeholderNames, List.mem_filterMap]
  constructor
  · intro h
    obtain ⟨piece, hpiece, hname⟩ := h
    cases piece with
    | char c => cases hname
    | placeholder other =>
      cases hname
      exact hpiece
  · intro h
    exact ⟨_, h, rfl⟩

/-- Without an opening brace there is no placeholder. -/
theorem pieces_of_not_mem {s : List Char} (h : '\x7b' ∉ s) : pieces s = s.map .char := by
  induction s with
  | nil => rw [pieces, List.map_nil]
  | cons c s ih =>
    rw [List.mem_cons, not_or] at h
    rw [pieces_cons (Ne.symm h.1), ih h.2, List.map_cons]

theorem mem_placeholdersOf {raw : List Char} {name : String} :
    name ∈ placeholdersOf raw ↔ name.toList ∈ placeholderNames (pieces raw) := by
  rw [placeholdersOf, strings, variablesOf, Parts.distinct_eq_eraseDups, List.mem_map]
  constructor
  · intro h
    obtain ⟨chars, hchars, rfl⟩ := h
    rw [String.toList_ofList]
    exact List.mem_eraseDups.1 hchars
  · intro h
    exact ⟨name.toList, List.mem_eraseDups.2 h, String.ofList_toList⟩

/-! ## Hosts and ports -/

theorem eq_append_of_mem_cutsAt {sep : Char} {s before after : List Char}
    (h : (before, after) ∈ cutsAt sep s) : s = before ++ sep :: after := by
  induction s generalizing before with
  | nil => cases h
  | cons c s ih =>
    rw [cutsAt] at h
    have hlater : (before, after) ∈ (cutsAt sep s).map (fun cut => (c :: cut.1, cut.2)) →
        c :: s = before ++ sep :: after := by
      intro hmem
      obtain ⟨cut, hcut, heq⟩ := List.mem_map.1 hmem
      obtain ⟨rfl, rfl⟩ := Prod.mk.inj heq
      rw [ih hcut, List.cons_append]
    split at h
    · rename_i hc
      rcases List.mem_cons.1 h with heq | h
      · obtain ⟨rfl, rfl⟩ := Prod.mk.inj heq
        rw [hc, List.nil_append]
      · exact hlater h
    · exact hlater h

/-- A text is its host, or its host with a colon and a port behind it. -/
theorem splitHostPort_cases (s : List Char) :
    splitHostPort s = (s, none) ∨ ∃ host after, s = host ++ ':' :: after ∧
      isPort (dropFinalNewline after) = true ∧
      splitHostPort s = (host, some (dropFinalNewline after)) := by
  unfold splitHostPort
  dsimp only
  split
  case h_2 => exact .inl rfl
  case h_1 host port hfind =>
    right
    obtain ⟨⟨before, after⟩, hcut, hfits⟩ := List.exists_of_findSome?_eq_some hfind
    simp only [Option.ite_none_right_eq_some, Bool.and_eq_true, Option.some.injEq,
      Prod.mk.injEq] at hfits
    obtain ⟨⟨-, hport⟩, rfl, rfl⟩ := hfits
    exact ⟨before, after, eq_append_of_mem_cutsAt (List.mem_reverse.1 hcut), hport, rfl⟩

/-- A port is a number or one placeholder. -/
theorem isPort_cases {s : List Char} (h : isPort s = true) :
    (∀ c ∈ s, isDecimal c = true) ∨ ∃ name, name ≠ [] ∧ (∀ c ∈ name, isNameChar c = true) ∧
      s = (Piece.placeholder name).text := by
  rw [isPort, Bool.or_eq_true] at h
  rcases h with h | h
  · left
    rw [Bool.and_eq_true, List.all_eq_true] at h
    exact h.2
  · right
    cases s with
    | nil => cases h
    | cons c s =>
      rcases hlead : leadingName? (c :: s) with _ | name
      · rw [hlead] at h
        cases h
      · rw [hlead] at h
        obtain ⟨htext, hname⟩ := leadingName?_eq_some hlead
        refine ⟨name, leadingName?_ne_nil hlead, hname, ?_⟩
        have hdrop : s.drop (name.length + 3) = [] := by
          apply List.drop_eq_nil_of_le
          have hlength : (c :: s).length = name.length + 4 := by simpa using h
          rw [List.length_cons] at hlength
          omega
        rw [hdrop, List.append_nil] at htext
        exact htext

theorem exists_ending (s : List Char) :
    ∃ ending, s = dropFinalNewline s ++ ending ∧ ∀ c ∈ ending, c = '\n' := by
  unfold dropFinalNewline
  split
  · rename_i hlast
    obtain ⟨before, hbefore⟩ := List.getLast?_eq_some_iff.1 hlast
    exact ⟨['\n'], by rw [hbefore, List.dropLast_concat], by simp⟩
  · exact ⟨[], by rw [List.append_nil], by simp⟩

theorem splitHostPort_subset (s : List Char) : (splitHostPort s).1 ⊆ s := by
  rcases splitHostPort_cases s with h | ⟨host, after, hs, -, h⟩
  · rw [h]
    exact List.Subset.refl s
  · rw [h, hs]
    exact List.subset_append_left _ _

theorem dropEndWhile_subset (p : Char → Bool) (s : List Char) : Text.dropEndWhile p s ⊆ s := by
  intro c hc
  rw [Text.dropEndWhile, List.mem_reverse] at hc
  exact List.mem_reverse.1 ((List.dropWhile_suffix p).subset hc)

/-- The host of an authority is part of it, apart from the closing bracket. -/
theorem mem_of_splitAuthority {hostPort host : List Char} {port : Option (List Char)}
    (h : splitAuthority hostPort = .ok (host, port)) {c : Char} (hc : c ∈ host) :
    c ∈ hostPort ∨ c = ']' := by
  have hplain : ∀ {s}, s = (splitHostPort hostPort).1 → c ∈ Text.dropEndWhile (· == ':') s →
      c ∈ hostPort := by
    intro s hs hmem
    subst hs
    exact splitHostPort_subset hostPort (dropEndWhile_subset _ _ hmem)
  unfold splitAuthority at h
  split at h
  · cases h
    rcases List.mem_append.1 hc with hc | hc
    · left
      change c ∈ (cutAt ']' hostPort).1 at hc
      rw [Text.cutAt_fst] at hc
      exact (List.takeWhile_prefix _).subset hc
    · exact .inr (List.mem_singleton.1 hc)
  · split at h
    · rename_i before port' heq
      cases h
      exact .inl (hplain (by rw [heq]) hc)
    · rename_i before heq
      dsimp only at h
      split at h
      · cases h
      · cases h
        exact .inl (hplain (by rw [heq]) hc)

theorem at_not_mem_dropCredentials (authority : List Char) : '@' ∉ dropCredentials authority := by
  rw [dropCredentials]
  by_cases h : '@' ∈ authority
  · obtain ⟨after, before, hsplit, hafter⟩ := List.eq_append_cons_of_mem (List.mem_reverse.2 h)
    have hauthority : authority = before.reverse ++ '@' :: after.reverse := by
      rw [← List.reverse_reverse authority, hsplit]
      simp
    have hfree : '@' ∉ after.reverse := mt List.mem_reverse.1 hafter
    rw [hauthority, Text.cutAtLast?_append_cons hfree]
    exact hfree
  · rw [Text.cutAtLast?_of_not_mem h]
    exact h

/-! ## The generic syntax -/

theorem Mask.placeholder_eq_ok {m : Mask} {digits text : List Char}
    (h : m.placeholder digits = .ok text) :
    ∃ name ∈ m.names, text = (Piece.placeholder name).text := by
  unfold Mask.placeholder at h
  split at h
  · cases h
  · split at h
    · rename_i name hname
      cases h
      exact ⟨name, List.mem_of_getElem? hname, rfl⟩
    · cases h

/-- A restored part holds what the masked part holds, and placeholders of the address. -/
theorem mem_restore {m : Mask} {s t : List Char} (h : m.restore s = .ok t) {c : Char} (hc : c ∈ t) :
    c ∈ s ∨ c ∈ "\x7b\x7d".toList ∨ ∃ name ∈ m.names, c ∈ name := by
  induction s using Mask.restore.induct m generalizing t with
  | case1 =>
    rw [Mask.restore] at h
    cases h
    cases hc
  | case2 d rest digits hdigits ih =>
    rw [Mask.restore, hdigits] at h
    obtain ⟨placeholder, hplaceholder, h⟩ := bind_eq_ok.1 h
    obtain ⟨tail, htail, h⟩ := bind_eq_ok.1 h
    cases h
    rcases List.mem_append.1 hc with hc | hc
    · right
      obtain ⟨name, hname, rfl⟩ := Mask.placeholder_eq_ok hplaceholder
      rcases mem_placeholder_text hc with hc | hc
      · exact .inr ⟨name, hname, hc⟩
      · exact .inl hc
    · rcases ih htail hc with hmem | hmem
      · exact .inl (List.mem_cons_of_mem d (List.mem_of_mem_drop hmem))
      · exact .inr hmem
  | case3 d rest hnone ih =>
    rw [Mask.restore, hnone] at h
    obtain ⟨tail, htail, h⟩ := bind_eq_ok.1 h
    cases h
    rcases List.mem_cons.1 hc with rfl | hc
    · exact .inl List.mem_cons_self
    · rcases ih htail hc with hmem | hmem
      · exact .inl (List.mem_cons_of_mem d hmem)
      · exact .inr hmem

/-- Where the generic syntax takes the host from. -/
theorem host_of_splitGenerically {raw : List Char} {url : Url}
    (h : splitGenerically raw = .ok url) :
    ∃ parts hostPort host port,
      Reference.ofText ((Mask.ofText raw).apply raw) = .ok parts ∧
      (Mask.ofText raw).restore (dropCredentials parts.authority) = .ok hostPort ∧
      splitAuthority hostPort = .ok (host, port) ∧
      (url.host = if host.isEmpty then [] else [String.ofList host]) ∧
      url.placeholders = placeholdersOf raw := by
  rw [splitGenerically] at h
  dsimp only at h
  obtain ⟨parts, hparts, h⟩ := bind_eq_ok.1 h
  split at h
  · cases h
  obtain ⟨text, htext, h⟩ := bind_eq_ok.1 h
  obtain ⟨hostPort, hrestore, rfl⟩ := map_eq_ok.1 htext
  obtain ⟨⟨host, port⟩, hsplit, h⟩ := bind_eq_ok.1 h
  rw [String.toList_ofList] at hsplit
  obtain ⟨_, -, h⟩ := bind_eq_ok.1 h
  obtain ⟨_, -, h⟩ := bind_eq_ok.1 h
  refine ⟨parts, hostPort, host, port, mapError_eq_ok.1 hparts, mapError_eq_ok.1 hrestore, hsplit,
    ?_⟩
  split at h
  · cases h
    exact ⟨rfl, rfl⟩
  · obtain ⟨_, -, h⟩ := bind_eq_ok.1 h
    cases h
    exact ⟨rfl, rfl⟩

/-- Under the generic syntax an `@` comes into the host with a placeholder only. -/
theorem mem_name_of_splitGenerically {raw : List Char} {url : Url}
    (h : splitGenerically raw = .ok url) {part : String} (hpart : part ∈ url.host)
    (hat : '@' ∈ part.toList) : ∃ name ∈ placeholderNames (pieces raw), '@' ∈ name := by
  obtain ⟨parts, hostPort, host, port, -, hrestore, hsplit, hhost, -⟩ := host_of_splitGenerically h
  rw [hhost] at hpart
  split at hpart
  · cases hpart
  · rw [List.mem_singleton.1 hpart, String.toList_ofList] at hat
    rcases mem_of_splitAuthority hsplit hat with hmem | hmem
    · rcases mem_restore hrestore hmem with hmem | hmem | hname
      · exact absurd hmem (at_not_mem_dropCredentials _)
      · exact absurd hmem (by decide)
      · exact hname
    · exact absurd hmem (by decide)

/-- An address without placeholders is its own mask. -/
theorem apply_of_not_mem {raw : List Char} (h : '\x7b' ∉ raw) :
    (Mask.ofText raw).apply raw = raw := by
  have hmask : ∀ (mark : List Char) (number : Nat) (s : List Char),
      maskFrom mark number (s.map .char) = s := by
    intro mark number s
    induction s with
    | nil => rfl
    | cons c s ih => rw [List.map_cons, maskFrom, ih]
  rw [Mask.apply, pieces_of_not_mem h, hmask]

/-- A text without the mark is restored as it stands. -/
theorem restore_of_not_infix {m : Mask} {s : List Char} (h : ¬ m.mark <:+: s) :
    m.restore s = .ok s := by
  induction s with
  | nil => rw [Mask.restore]
  | cons c s ih =>
    have hrest : ¬ m.mark <:+: s := fun hi => h (hi.trans (List.suffix_cons c s).isInfix)
    rw [Mask.restore_cons fun hp => h hp.isInfix, ih hrest]
    rfl

/-- What covers a text without placeholders is the text. -/
theorem Mask.Covers.eq_of_names {m : Mask} (hnames : m.names = []) {s t : List Char}
    (h : m.Covers s t) : t = s := by
  induction h with
  | nil => rfl
  | char c tail ih => rw [ih]
  | placeholder hname hnumber tail ih => simp [hnames] at hnumber

/-- Legible parts are restored as they stand where there are no placeholders. -/
theorem Mask.Legible.restore {m : Mask} (hnames : m.names = []) {t : List Char}
    (h : m.Legible t) : m.restore t = .ok t := by
  obtain ⟨s, hcovers, hfree⟩ := h
  rw [hcovers.eq_of_names hnames]
  exact restore_of_not_infix hfree

/-- Splitting an address without placeholders by the generic syntax succeeds when its reference and
its port are well formed. -/
theorem exists_splitGenerically {raw : List Char} (hopen : '\x7b' ∉ raw) (hmark : ¬ FormsMark raw)
    {parts : Reference} (hparts : Reference.ofText raw = .ok parts) (hscheme : parts.scheme ≠ [])
    (hauthority : parts.authority ≠ []) {split : List Char × Option (List Char)}
    (hsplit : splitAuthority (dropCredentials parts.authority) = .ok split) :
    ∃ url, splitGenerically raw = .ok url := by
  have hm : Mark (Mask.ofText raw).mark := (markFor_spec raw).1
  have hnames : (Mask.ofText raw).names = [] := by
    rw [Mask.ofText, pieces_of_not_mem hopen]
    simp [placeholderNames]
  have happly := apply_of_not_mem hopen
  have hlegible : (Mask.ofText raw).Legible (clean raw) := by
    have hcovers := (covers_apply raw).clean hm
    rw [happly] at hcovers
    exact ⟨clean raw, hcovers, hmark⟩
  have hreference := hlegible.reference hm hparts
  have hrestore : ∀ {t : List Char} {fault : Fault}, (Mask.ofText raw).Legible t →
      Avoids ((((Mask.ofText raw).restore t).mapError Fault.token).map String.ofList) fault := by
    intro t fault ht
    rw [ht.restore hnames]
    exact avoids_ok _
  apply Outcome.exists_eq_ok
  intro fault
  rw [splitGenerically]
  dsimp only
  rw [happly, hparts]
  refine Avoids.bind (avoids_ok _) fun parts' hparts' => ?_
  cases hparts'
  rw [if_neg (by simp [hscheme, hauthority])]
  have hhostPort := hreference.authority.dropCredentials hm
  refine Avoids.bind (hrestore hhostPort) fun hostPort hrestored => ?_
  obtain ⟨text, htext, rfl⟩ := map_eq_ok.1 hrestored
  rw [hhostPort.restore hnames] at htext
  cases htext
  rw [String.toList_ofList, hsplit]
  refine Avoids.bind (avoids_ok _) fun _ _ => ?_
  refine Avoids.bind (.mapM fun segment hsegment =>
    hrestore (hreference.path.segments hm segment hsegment)) fun path _ => ?_
  refine Avoids.bind (.mapM fun pair hpair => ?_) fun query _ => ?_
  · obtain ⟨hkey, hvalue⟩ := hreference.query.splitQuery hm pair hpair
    exact (hrestore hkey).bind fun _ _ => (hrestore hvalue).bind fun _ _ => avoids_ok _
  split
  · exact avoids_ok _
  · exact (hrestore hreference.fragment).map.bind fun _ _ => avoids_ok _

/-! ## Addresses with credentials -/

/-- An address with credentials.  They may be empty, and they may hold an `@` themselves. -/
structure Credentialed where
  scheme : List Char
  credentials : List Char
  hostPort : List Char
  tail : List Char
  isScheme : Url.isScheme scheme = true
  credentials_free : ∀ c ∈ credentials, endsAuthority c = false
  hostPort_ne : hostPort ≠ []
  hostPort_free : ∀ c ∈ hostPort, endsAuthority c = false ∧ c ≠ '@'
  tail_ends : ∀ c, tail.head? = some c → endsAuthority c = true

namespace Credentialed

variable (a : Credentialed)

def authority : List Char := a.credentials ++ '@' :: a.hostPort

def text : List Char := a.scheme ++ "://".toList ++ a.authority ++ a.tail

theorem text_eq : a.text = a.scheme ++ ':' :: '/' :: '/' :: (a.authority ++ a.tail) := by
  simp [text]

theorem at_mem_authority : '@' ∈ a.authority := List.mem_append_right _ List.mem_cons_self

theorem authority_ne : a.authority ≠ [] := List.ne_nil_of_mem a.at_mem_authority

theorem authority_free : ∀ c ∈ a.authority, endsAuthority c = false := by
  intro c hc
  rcases List.mem_append.1 hc with hc | hc
  · exact a.credentials_free c hc
  · rcases List.mem_cons.1 hc with rfl | hc
    · decide
    · exact (a.hostPort_free c hc).1

theorem dropCredentials_authority : dropCredentials a.authority = a.hostPort := by
  have hfree : '@' ∉ a.hostPort := fun hmem => (a.hostPort_free _ hmem).2 rfl
  rw [dropCredentials, authority, Text.cutAtLast?_append_cons hfree]

theorem tail_cases : a.tail = [] ∨ ∃ c rest, a.tail = c :: rest ∧ endsAuthority c = true := by
  rcases htail : a.tail with _ | ⟨c, rest⟩
  · exact .inl rfl
  · exact .inr ⟨c, rest, rfl, a.tail_ends c (by rw [htail]; rfl)⟩

/-! ### Plain rules -/

/-- What is left of the rest of the address without query and hash is a path. -/
theorem path_cases : (cutAt '?' (cutAt '#' a.tail).1).1 = [] ∨
    ∃ rest, (cutAt '?' (cutAt '#' a.tail).1).1 = '/' :: rest := by
  rw [Text.cutAt_fst, Text.cutAt_fst]
  rcases hpath : (a.tail.takeWhile (· != '#')).takeWhile (· != '?') with _ | ⟨c, rest⟩
  · exact .inl rfl
  · right
    have hupTo : c :: rest <+: a.tail.takeWhile (· != '#') := by
      rw [← hpath]
      exact List.takeWhile_prefix _
    have hquery : (c != '?') = true := by
      apply List.mem_takeWhile_imp (p := (· != '?')) (l := a.tail.takeWhile (· != '#'))
      rw [hpath]
      exact List.mem_cons_self
    have hhash : (c != '#') = true :=
      List.mem_takeWhile_imp (p := (· != '#')) (hupTo.subset List.mem_cons_self)
    obtain ⟨more, hmore⟩ := hupTo.trans (List.takeWhile_prefix _)
    have hends : endsAuthority c = true := a.tail_ends c (by rw [← hmore]; rfl)
    simp only [endsAuthority, Bool.or_eq_true, beq_iff_eq] at hends
    rcases hends with (rfl | rfl) | rfl
    · exact ⟨rest, rfl⟩
    · exact absurd hquery (by decide)
    · exact absurd hhash (by decide)

/-- Neither query nor hash begins before the end of the authority. -/
theorem not_mem_front {c : Char} (hc : c ∈ "?#".toList) :
    c ∉ a.scheme ++ ':' :: '/' :: '/' :: a.authority := by
  have hscheme := (by decide : ∀ x ∈ "?#".toList, isSchemeChar x = false) c hc
  have hends := (by decide : ∀ x ∈ "?#".toList, endsAuthority x = true) c hc
  have hfixed := (by decide : ∀ x ∈ "?#".toList, x ≠ ':' ∧ x ≠ '/') c hc
  intro hmem
  rcases List.mem_append.1 hmem with hmem | hmem
  · exact not_mem_of_isScheme a.isScheme hscheme hmem
  · simp only [List.mem_cons, hfixed.1, hfixed.2, false_or] at hmem
    rw [a.authority_free c hmem] at hends
    cases hends

/-- The authority is the first part of the path behind the protocol. -/
theorem exists_segments :
    ∃ more, segments (a.authority ++ (cutAt '?' (cutAt '#' a.tail).1).1) = a.authority :: more := by
  have hslash : '/' ∉ a.authority := fun hmem => absurd (a.authority_free _ hmem) (by decide)
  have hkept : ∀ pieces, (a.authority :: pieces).filter (!·.isEmpty) =
      a.authority :: pieces.filter (!·.isEmpty) := by
    intro pieces
    exact List.filter_cons_of_pos (by simp [a.authority_ne])
  rcases a.path_cases with hpath | ⟨rest, hpath⟩
  · rw [hpath, List.append_nil, segments, Text.splitOn_of_not_mem hslash, hkept]
    exact ⟨_, rfl⟩
  · rw [hpath, segments, Text.splitOn_append_cons hslash, hkept]
    exact ⟨_, rfl⟩

/-- The plain rules take the host from the whole authority. -/
theorem host_splitPlainly :
    (splitPlainly a.text).host = [String.ofList (splitHostPort a.authority).1] := by
  have htext : a.text = (a.scheme ++ ':' :: '/' :: '/' :: a.authority) ++ a.tail := by
    simp [text_eq]
  have hprotocol : ∀ rest, splitProtocol
      ((a.scheme ++ ':' :: '/' :: '/' :: a.authority) ++ rest) =
        (some a.scheme, a.authority ++ rest) := by
    intro rest
    rw [splitProtocol, List.append_assoc, List.cons_append,
      Text.cutAt_append_cons (not_mem_of_isScheme a.isScheme (by decide))]
    exact if_pos a.isScheme
  obtain ⟨more, hparts⟩ := a.exists_segments
  rw [splitPlainly, htext, Text.cutAt_append_of_not_mem (a.not_mem_front (by decide))]
  dsimp only
  rw [Text.cutAt_append_of_not_mem (a.not_mem_front (by decide))]
  dsimp only
  rw [hprotocol]
  dsimp only
  rw [hparts]
  rfl

/-- The plain rules leave the `@` of the credentials in the host, as what follows a colon and holds
an `@` is no port. -/
theorem at_mem_host (hnames : ∀ name ∈ placeholderNames (pieces a.text), '@' ∉ name) :
    '@' ∈ (splitHostPort a.authority).1 := by
  rcases splitHostPort_cases a.authority with hsplit | ⟨host, after, happend, hport, hsplit⟩
  · rw [hsplit]
    exact a.at_mem_authority
  · rw [hsplit]
    have hmem := a.at_mem_authority
    rw [happend, List.mem_append, List.mem_cons] at hmem
    rcases hmem with hmem | hmem | hmem
    · exact hmem
    · exact absurd hmem (by decide)
    · exfalso
      obtain ⟨ending, hending, hnewline⟩ := exists_ending after
      rw [hending, List.mem_append] at hmem
      rcases hmem with hmem | hmem
      · rcases isPort_cases hport with hdigits | ⟨name, hne, hname, hplaceholder⟩
        · exact absurd (hdigits _ hmem) (by decide)
        · -- The port is a placeholder of the address, and its name would hold the sign.
          have hpiece : .placeholder name ∈ pieces a.text := by
            have htext : a.text = (a.scheme ++ ':' :: '/' :: '/' :: (host ++ [':'])) ++
                ((Piece.placeholder name).text ++ (ending ++ a.tail)) := by
              rw [text_eq, happend, hending, hplaceholder]
              simp
            rw [htext]
            exact placeholder_mem_pieces hne hname _ _
          rw [hplaceholder] at hmem
          rcases mem_placeholder_text hmem with hmem | hmem
          · exact hnames name (mem_placeholderNames.2 hpiece) hmem
          · exact absurd hmem (by decide)
      · exact absurd (hnewline _ hmem) (by decide)

/-! ### Generic syntax -/

/-- The checks that the generic syntax makes on an authority: its brackets, its compatibility form
and its port. -/
def Accepted : Prop :=
  checkBrackets a.authority = .ok () ∧ checkForm a.authority = .ok () ∧
    ∃ split, splitAuthority a.hostPort = .ok split

/-- The generic syntax accepts an address without placeholders exactly if its authority stands the
checks. -/
theorem exists_splitGenerically_iff (hopen : '\x7b' ∉ a.text)
    (hclean : ∀ c ∈ a.text, interrupts c = false) :
    (∃ url, splitGenerically a.text = .ok url) ↔ a.Accepted := by
  have hfree : ∀ c ∈ a.scheme ++ ':' :: '/' :: '/' :: (a.authority ++ a.tail),
      c ∉ "\t\r\n".toList := by
    intro c hc hmem
    rw [← a.text_eq] at hc
    have hinterrupts := (by decide : ∀ x ∈ "\t\r\n".toList, interrupts x = true) c hmem
    rw [hclean c hc] at hinterrupts
    cases hinterrupts
  have hreference := Reference.ofText_of_isScheme a.isScheme a.authority_free a.tail_cases hfree
  rw [← a.text_eq] at hreference
  constructor
  · intro h
    obtain ⟨url, h⟩ := h
    obtain ⟨parts, hostPort, host, port, hparts, hrestore, hsplit, -⟩ := host_of_splitGenerically h
    rw [apply_of_not_mem hopen, hreference] at hparts
    obtain ⟨⟨⟩, hbrackets, hparts⟩ := bind_eq_ok.1 hparts
    obtain ⟨⟨⟩, hform, hparts⟩ := bind_eq_ok.1 hparts
    cases hparts
    have hinfix : a.hostPort <:+: a.text :=
      ⟨a.scheme ++ "://".toList ++ a.credentials ++ ['@'], a.tail, by simp [text, authority]⟩
    rw [a.dropCredentials_authority,
      restore_of_not_infix fun hi => (markFor_spec a.text).2 (hi.trans hinfix)] at hrestore
    cases hrestore
    exact ⟨hbrackets, hform, _, hsplit⟩
  · intro h
    obtain ⟨hbrackets, hform, split, hsplit⟩ := h
    have hmark : ¬ FormsMark a.text := by
      intro hmark
      obtain ⟨c, hc, hinterrupts⟩ := hmark.exists_mem
      rw [hclean c hc] at hinterrupts
      cases hinterrupts
    rw [hbrackets, hform] at hreference
    obtain ⟨c, rest, hscheme, -⟩ := head_of_isScheme a.isScheme
    rw [← a.dropCredentials_authority] at hsplit
    have hne : a.scheme.map Char.toLower ≠ [] := by simp [hscheme]
    exact exists_splitGenerically hopen hmark hreference hne a.authority_ne hsplit

/-! ### Both ways of splitting -/

/-- An address with credentials is split by plain rules only after the generic syntax refused it. -/
theorem ofText_cases {url : Url} (h : ofText a.text = .ok url) :
    splitGenerically a.text = .ok url ∨
      (∃ fault, splitGenerically a.text = .error fault) ∧ url = splitPlainly a.text := by
  have hstart : ¬ startsWithPlaceholder a.text = true := by
    obtain ⟨c, rest, hscheme, halpha⟩ := head_of_isScheme a.isScheme
    rw [text_eq, hscheme, startsWithPlaceholder]
    have hc : ('\x7b' == c) = false := by
      rw [beq_eq_false_iff_ne]
      rintro rfl
      exact absurd halpha (by decide)
    simp [List.isPrefixOf, hc]
  rw [ofText, if_neg hstart] at h
  rcases hgeneric : splitGenerically a.text with fault | found
  · rw [hgeneric] at h
    refine .inr ⟨⟨fault, rfl⟩, ?_⟩
    split at h
    case h_1 heq => cases heq
    case h_2 => cases h
    case h_3 =>
      cases h
      rfl
  · rw [hgeneric] at h
    cases h
    exact .inl rfl

theorem placeholders_of_ofText {url : Url} (h : ofText a.text = .ok url) :
    url.placeholders = placeholdersOf a.text := by
  rcases a.ofText_cases h with hgeneric | ⟨-, rfl⟩
  · obtain ⟨-, -, -, -, -, -, -, -, hplaceholders⟩ := host_of_splitGenerically hgeneric
    exact hplaceholders
  · rfl

/-- The host of an address is free of credentials exactly if the generic syntax accepts it. -/
theorem host_free_iff {url : Url} (h : ofText a.text = .ok url)
    (hnames : ∀ name ∈ url.placeholders, '@' ∉ name.toList) :
    (∀ part ∈ url.host, '@' ∉ part.toList) ↔ ∃ parts, splitGenerically a.text = .ok parts := by
  have hpieces : ∀ name ∈ placeholderNames (pieces a.text), '@' ∉ name := by
    intro name hname
    have hmem : String.ofList name ∈ url.placeholders := by
      rw [a.placeholders_of_ofText h, mem_placeholdersOf, String.toList_ofList]
      exact hname
    simpa using hnames _ hmem
  rcases a.ofText_cases h with hgeneric | ⟨⟨fault, hfault⟩, hplain⟩
  · refine iff_of_true ?_ ⟨url, hgeneric⟩
    intro part hpart hat
    obtain ⟨name, hname, hin⟩ := mem_name_of_splitGenerically hgeneric hpart hat
    exact hpieces name hname hin
  · refine iff_of_false ?_ ?_
    · intro hnone
      apply hnone (String.ofList (splitHostPort a.authority).1)
      · rw [hplain, a.host_splitPlainly]
        exact List.mem_singleton_self _
      · rw [String.toList_ofList]
        exact a.at_mem_host hpieces
    · intro haccepted
      obtain ⟨parts, hparts⟩ := haccepted
      rw [hfault] at hparts
      cases hparts

end Credentialed

/-- The credentials of an address are dropped exactly if the generic syntax accepts it.  Otherwise
they stay in the host: the plain rules take all of the authority for it but the port.  Nothing is
said of an `@` in the name of a placeholder, since placeholders are kept as they are.  Without
placeholders the checks of the authority decide. -/
theorem ofText_credentialed (a : Credentialed) :
    (∃ url, ofText a.text = .ok url ∧
      (∀ fault, splitGenerically a.text = .error fault →
        url.host = [String.ofList (splitHostPort a.authority).1]) ∧
      ((∀ name ∈ url.placeholders, '@' ∉ name.toList) →
        ((∀ part ∈ url.host, '@' ∉ part.toList) ↔
          ∃ parts, splitGenerically a.text = .ok parts)) ∧
      ('\x7b' ∉ a.text → (∀ c ∈ a.text, interrupts c = false) →
        ((∀ part ∈ url.host, '@' ∉ part.toList) ↔ a.Accepted))) ∨
    FormsMark a.text ∧ ofText a.text = .error .unknown := by
  rcases haddress : ofText a.text with fault | url
  · right
    refine ⟨?_, by rw [fault_of_ofText haddress]⟩
    by_contra hmark
    obtain ⟨url, hurl⟩ := exists_ofText hmark
    rw [haddress] at hurl
    cases hurl
  · left
    refine ⟨url, rfl, ?_, a.host_free_iff haddress, ?_⟩
    · intro fault hfault
      rcases a.ofText_cases haddress with hgeneric | ⟨-, hplain⟩
      · rw [hgeneric] at hfault
        cases hfault
      · rw [hplain, a.host_splitPlainly]
    · intro hopen hclean
      rw [← a.exists_splitGenerically_iff hopen hclean]
      apply a.host_free_iff haddress
      rw [a.placeholders_of_ofText haddress, placeholdersOf, variablesOf, pieces_of_not_mem hopen]
      simp [placeholderNames, distinct, strings]

/-- An address whose port is a word. -/
def wordPort : Credentialed where
  scheme := "http".toList
  credentials := "user:secret".toList
  hostPort := "host:abc".toList
  tail := "/path".toList
  isScheme := by decide
  credentials_free := by decide
  hostPort_ne := by decide
  hostPort_free := by decide
  tail_ends := by simp [endsAuthority]

/-- The credentials of an address come into its host when its port is none. -/
theorem ofText_keeps_credentials :
    ∃ url, ofText wordPort.text = .ok url ∧ url.host = ["user:secret@host:abc"] ∧
      url.path = ["path"] ∧ url.placeholders = [] := by
  have hparts : (ofText wordPort.text).toOption.map
      (fun url => (url.host, url.path, url.placeholders)) =
        some (["user:secret@host:abc"], ["path"], []) := by
    decide +kernel
  obtain ⟨url, hurl, heq⟩ := Outcome.exists_of_toOption_map hparts
  simp only [Prod.mk.injEq] at heq
  exact ⟨url, hurl, heq⟩

end Courier.Url
