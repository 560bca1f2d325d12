import Courier.Proofs.Outcome
import Courier.Proofs.Text.Cut
import Courier.Proofs.Url.Masking
import Courier.Url.Basic
import Mathlib.Data.List.TakeWhile
import Mathlib.Tactic.Common

/-!
# Addresses that can be taken apart

An address that does not follow the generic syntax is split by plain rules, so that taking it apart
fails on one fault only: a token in a part of the masked address that stands for no placeholder.
The tokens are told by a mark that does not occur in the address.  The generic syntax removes tabs
and line ends before it splits, though, and what remains may hold the mark: `FormsMark`.

* `covers_apply`: the masked address is the address with tokens for its placeholders, and it stays
  so when it is cleaned (`Mask.Covers.clean`).
* `Mask.Legible` says that a part of the masked address covers a text without mark.  Such parts are
  cut into such parts, and are restored without an unknown token.
* `exists_ofText`: an address that does not form its own mark is taken apart, and its text is kept.
-/

namespace Courier.Url

open Outcome (Avoids bind_eq_ok mapError_eq_ok)
open Text (cutAtD cutAtLast? splitOn isBlank Cuts)

/-! ## The masked address -/

theorem leadingName?_eq_some {c : Char} {rest name : List Char}
    (h : leadingName? (c :: rest) = some name) :
    c :: rest = (Piece.placeholder name).text ++ rest.drop (name.length + 3) ∧
      ∀ d ∈ name, isNameChar d = true := by
  unfold leadingName? at h
  split at h
  case h_2 => cases h
  case h_1 after heq =>
    obtain ⟨rfl, rfl⟩ := List.cons.inj heq
    simp only [Option.ite_none_right_eq_some, Bool.and_eq_true, List.isPrefixOf_iff_prefix,
      Option.some.injEq] at h
    obtain ⟨⟨-, tail, htail⟩, rfl⟩ := h
    have hafter : after = after.takeWhile isNameChar ++ ("\x7d\x7d".toList ++ tail) := by
      rw [htail, List.takeWhile_append_dropWhile]
    refine ⟨?_, fun d hd => List.mem_takeWhile_imp hd⟩
    generalize after.takeWhile isNameChar = name at hafter
    have hdrop : ('\x7b' :: after).drop (name.length + 3) = tail := by
      rw [hafter, ← List.append_assoc, ← List.cons_append]
      exact List.drop_left' (by simp)
    rw [hdrop, hafter]
    simp [Piece.text]

theorem pieces_spec (s : List Char) :
    (pieces s).flatMap Piece.text = s ∧
      ∀ name, .placeholder name ∈ pieces s → ∀ c ∈ name, isNameChar c = true := by
  induction s using pieces.induct with
  | case1 => simp [pieces]
  | case2 c rest name hname ih =>
    obtain ⟨htext, hchars⟩ := leadingName?_eq_some hname
    rw [pieces, hname]
    refine ⟨?_, fun other hother => ?_⟩
    · rw [List.flatMap_cons, ih.1, ← htext]
    · rcases List.mem_cons.1 hother with heq | hother
      · cases heq
        exact hchars
      · exact ih.2 other hother
  | case3 c rest hname ih =>
    rw [pieces, hname]
    refine ⟨by rw [List.flatMap_cons, ih.1]; rfl, fun other hother => ?_⟩
    exact ih.2 other (by simpa using hother)

theorem covers_maskFrom {m : Mask} {ps : List Piece} {number : Nat}
    (hps : ∀ name, .placeholder name ∈ ps → ∀ c ∈ name, isNameChar c = true)
    (hnames : m.names.drop number = placeholderNames ps) :
    m.Covers (ps.flatMap Piece.text) (maskFrom m.mark number ps) := by
  induction ps generalizing number with
  | nil => exact .nil
  | cons piece ps ih =>
    have hrest : ∀ name, .placeholder name ∈ ps → ∀ c ∈ name, isNameChar c = true :=
      fun name hname => hps name (List.mem_cons_of_mem _ hname)
    rw [List.flatMap_cons]
    cases piece with
    | char c => exact .char c (ih hrest hnames)
    | placeholder name =>
      obtain ⟨hfirst, htail⟩ := getElem?_of_drop_eq_cons hnames
      exact .placeholder (hps name List.mem_cons_self) hfirst (ih hrest htail)

/-- A masked address is the address with a token for each placeholder. -/
theorem covers_apply (raw : List Char) :
    (Mask.ofText raw).Covers raw ((Mask.ofText raw).apply raw) := by
  obtain ⟨htext, hchars⟩ := pieces_spec raw
  have h : (Mask.ofText raw).Covers ((pieces raw).flatMap Piece.text)
      ((Mask.ofText raw).apply raw) := covers_maskFrom hchars rfl
  rwa [htext] at h

/-! ## The cleaned address -/

theorem isBlank_of_mem_name {name : List Char} (hname : ∀ c ∈ name, isNameChar c = true) {c : Char}
    (hc : c ∈ name) : isBlank c = false := by
  have h := hname c hc
  simp only [isNameChar, Bool.and_eq_true, Bool.not_eq_true'] at h
  exact h.2

/-- A character that is removed from an address, wherever it stands. -/
def interrupts (c : Char) : Bool := c == '\t' || c == '\r' || c == '\n'

theorem clean_eq (s : List Char) :
    clean s = (s.dropWhile (·.toNat ≤ 32)).filter (!interrupts ·) := by
  rw [clean]
  refine List.filter_congr fun c _ => ?_
  rw [interrupts, Bool.not_or, Bool.not_or]
  rfl

theorem interrupts_of_isTokenChar {c : Char} (h : isTokenChar c = true) :
    interrupts c = false := by
  refine Bool.eq_false_iff.2 fun hc => ?_
  simp only [interrupts, Bool.or_eq_true, beq_iff_eq] at hc
  rcases hc with (rfl | rfl) | rfl <;> exact absurd h (by decide)

/-- A placeholder holds its name and braces. -/
theorem mem_placeholder_text {name : List Char} {c : Char} (h : c ∈ (Piece.placeholder name).text) :
    c ∈ name ∨ c ∈ "\x7b\x7d".toList := by
  have hopen := (by decide : ∀ d ∈ "\x7b\x7b".toList, d ∈ "\x7b\x7d".toList)
  have hclose := (by decide : ∀ d ∈ "\x7d\x7d".toList, d ∈ "\x7b\x7d".toList)
  rw [Piece.text, List.mem_append, List.mem_append] at h
  rcases h with (h | h) | h
  · exact .inr (hopen c h)
  · exact .inl h
  · exact .inr (hclose c h)

theorem interrupts_of_mem_placeholder {name : List Char}
    (hname : ∀ c ∈ name, isNameChar c = true) {c : Char} (hc : c ∈ (Piece.placeholder name).text) :
    interrupts c = false := by
  rcases mem_placeholder_text hc with hc | hc
  · refine Bool.eq_false_iff.2 fun hinterrupts => ?_
    have hblank := isBlank_of_mem_name hname hc
    simp only [interrupts, Bool.or_eq_true, beq_iff_eq] at hinterrupts
    rcases hinterrupts with (rfl | rfl) | rfl <;> exact absurd hblank (by decide)
  · exact (by decide : ∀ d ∈ "\x7b\x7d".toList, interrupts d = false) c hc

/-- Placeholders and tokens hold nothing that is removed. -/
theorem Mask.Covers.filter {m : Mask} (hm : Mark m.mark) {s t : List Char} (h : m.Covers s t) :
    m.Covers (s.filter (!interrupts ·)) (t.filter (!interrupts ·)) := by
  induction h with
  | nil => exact .nil
  | char c tail ih =>
    rw [List.filter_cons, List.filter_cons]
    split
    · exact .char c ih
    · exact ih
  | @placeholder name s t number hname hnumber tail ih =>
    have htoken : (token m.mark number).filter (!interrupts ·) = token m.mark number :=
      List.filter_eq_self.2 fun c hc => by
        rw [interrupts_of_isTokenChar (isTokenChar_of_mem_token hm hc)]
        rfl
    have htext : (Piece.placeholder name).text.filter (!interrupts ·) =
        (Piece.placeholder name).text :=
      List.filter_eq_self.2 fun c hc => by
        rw [interrupts_of_mem_placeholder hname hc]
        rfl
    rw [List.filter_append, List.filter_append, htoken, htext]
    exact .placeholder hname hnumber ih

theorem Mask.Covers.dropWhile {m : Mask} (hm : Mark m.mark) {s t : List Char} (h : m.Covers s t) :
    m.Covers (s.dropWhile (·.toNat ≤ 32)) (t.dropWhile (·.toNat ≤ 32)) := by
  induction h with
  | nil => exact .nil
  | @char c s t tail ih =>
    rw [List.dropWhile_cons, List.dropWhile_cons]
    split
    · exact ih
    · exact .char c tail
  | @placeholder name s t number hname hnumber tail ih =>
    obtain ⟨rest, hmark⟩ := hm.exists_cons
    have htoken : (token m.mark number ++ t).dropWhile (·.toNat ≤ 32) =
        token m.mark number ++ t := by
      rw [token, hmark]
      exact List.dropWhile_cons_of_neg (by decide)
    have htext : ((Piece.placeholder name).text ++ s).dropWhile (·.toNat ≤ 32) =
        (Piece.placeholder name).text ++ s :=
      List.dropWhile_cons_of_neg (by decide)
    rw [htoken, htext]
    exact .placeholder hname hnumber tail

theorem Mask.Covers.clean {m : Mask} (hm : Mark m.mark) {s t : List Char} (h : m.Covers s t) :
    m.Covers (clean s) (clean t) := by
  rw [clean_eq, clean_eq]
  exact (h.dropWhile hm).filter hm

/-! ## Legible parts -/

/-- The part covers a text in which the mark does not occur. -/
def Mask.Legible (m : Mask) (t : List Char) : Prop := ∃ s, m.Covers s t ∧ ¬ m.mark <:+: s

theorem Mask.legible_nil {m : Mask} (hm : Mark m.mark) : m.Legible [] :=
  ⟨[], .nil, fun h => hm.ne_nil (List.eq_nil_of_infix_nil h)⟩

/-- Legible parts are cut into legible ones. -/
theorem Mask.cuts_legible {m : Mask} (hm : Mark m.mark) {sep : Char}
    (hsep : isTokenChar sep = false) : Cuts m.Legible sep := by
  rintro ta tb ⟨s, hcovers, hfree⟩
  obtain ⟨sa, sb, rfl, ha, hb⟩ := hcovers.cut hm hsep
  exact ⟨⟨sa, ha, fun h => hfree (h.trans (List.prefix_append _ _).isInfix)⟩,
    ⟨sb, hb, fun h => hfree (h.trans ((List.suffix_cons sep sb).trans
      (List.suffix_append _ _)).isInfix)⟩⟩

/-- What begins with a separator is legible with it. -/
theorem Mask.Legible.of_append {m : Mask} (hm : Mark m.mark) {sep : Char}
    (hsep : isTokenChar sep = false) {ta tb : List Char} (h : m.Legible (ta ++ sep :: tb)) :
    m.Legible (sep :: tb) := by
  obtain ⟨s, hcovers, hfree⟩ := h
  obtain ⟨sa, sb, rfl, ha, hb⟩ := hcovers.cut hm hsep
  exact ⟨sep :: sb, .char sep hb, fun h => hfree (h.trans (List.suffix_append _ _).isInfix)⟩

/-- A legible part is restored without an unknown token. -/
theorem Mask.Legible.avoids {m : Mask} (hm : Mark m.mark) {t : List Char} (h : m.Legible t) :
    Avoids (((m.restore t).mapError Fault.token).map String.ofList) (.token .unknown) := by
  obtain ⟨s, hcovers, hfree⟩ := h
  rcases hcovers.restore hm hfree with hok | ⟨digits, herror⟩
  · rw [hok]
    exact nofun
  · rw [herror]
    exact nofun

/-! ## The parts of an address -/

/-- The parts that are restored. -/
structure Reference.Legible (m : Mask) (r : Reference) : Prop where
  authority : m.Legible r.authority
  path : m.Legible r.path
  query : m.Legible r.query
  fragment : m.Legible r.fragment

section

variable {m : Mask} {s t : List Char}

theorem Mask.Legible.splitScheme (hm : Mark m.mark) (h : m.Legible t) :
    m.Legible (splitScheme t).2 := by
  have hcolon : Cuts m.Legible ':' := Mask.cuts_legible hm (by decide)
  have hcut := hcolon.cutAt h
  unfold Url.splitScheme
  split
  · rename_i scheme rest heq
    split
    · exact hcut.2 rest (by rw [heq])
    · exact h
  · exact h

/-- An authority and what follows it are legible. -/
theorem Mask.Legible.span (hm : Mark m.mark) (h : m.Legible t) :
    m.Legible (t.takeWhile (!endsAuthority ·)) ∧ m.Legible (t.dropWhile (!endsAuthority ·)) := by
  have happend := List.takeWhile_append_dropWhile (p := (!endsAuthority ·)) (l := t)
  cases hrest : t.dropWhile (!endsAuthority ·) with
  | nil =>
    rw [hrest, List.append_nil] at happend
    rw [happend]
    exact ⟨h, Mask.legible_nil hm⟩
  | cons sep rest =>
    have hends : endsAuthority sep = true := by
      have := List.head_dropWhile_not (!endsAuthority ·) (l := t) (by simp [hrest])
      simpa [hrest] using this
    have hsep : isTokenChar sep = false := by
      simp only [endsAuthority, Bool.or_eq_true, beq_iff_eq] at hends
      rcases hends with (rfl | rfl) | rfl <;> decide
    rw [hrest] at happend
    rw [← happend] at h
    exact ⟨(Mask.cuts_legible hm hsep _ _ h).1, h.of_append hm hsep⟩

theorem Mask.Legible.reference (hm : Mark m.mark) (h : m.Legible (clean s)) {r : Reference}
    (hr : Reference.ofText s = .ok r) : r.Legible m := by
  have hslash : Cuts m.Legible '/' := Mask.cuts_legible hm (by decide)
  have hfragment : Cuts m.Legible '#' := Mask.cuts_legible hm (by decide)
  have hquery : Cuts m.Legible '?' := Mask.cuts_legible hm (by decide)
  have hnil := Mask.legible_nil hm
  have hparts : ∀ {scheme authority after : List Char}, m.Legible authority → m.Legible after →
      Reference.Legible m
        { scheme, authority
          path := (cutAtD '?' (cutAtD '#' after).1).1
          query := (cutAtD '?' (cutAtD '#' after).1).2
          fragment := (cutAtD '#' after).2 } := by
    intro scheme authority after hauthority hafter
    obtain ⟨hupToHash, hafterHash⟩ := hfragment.cutAtD hnil hafter
    obtain ⟨hpath, hafterMark⟩ := hquery.cutAtD hnil hupToHash
    exact ⟨hauthority, hpath, hafterMark, hafterHash⟩
  have hrest := h.splitScheme hm
  unfold Reference.ofText at hr
  rcases hscheme : Url.splitScheme (Url.clean s) with ⟨scheme, rest⟩
  rw [hscheme] at hr hrest
  dsimp only at hr hrest
  split at hr
  case h_1 after =>
    obtain ⟨hauthority, hafter⟩ := ((hslash [] after (hslash [] ('/' :: after) hrest).2).2).span hm
    obtain ⟨_, -, hr⟩ := bind_eq_ok.1 hr
    obtain ⟨_, -, hr⟩ := bind_eq_ok.1 hr
    cases hr
    exact hparts hauthority hafter
  case h_2 =>
    obtain ⟨_, -, hr⟩ := bind_eq_ok.1 hr
    obtain ⟨_, -, hr⟩ := bind_eq_ok.1 hr
    cases hr
    exact hparts hnil hrest

theorem Mask.Legible.dropCredentials (hm : Mark m.mark) (h : m.Legible t) :
    m.Legible (dropCredentials t) := by
  have hat : Cuts m.Legible '@' := Mask.cuts_legible hm (by decide)
  unfold Url.dropCredentials
  split
  · exact (hat.cutAtLast? h ‹_›).2
  · exact h

theorem Mask.Legible.segments (hm : Mark m.mark) (h : m.Legible t) :
    ∀ segment ∈ segments t, m.Legible segment := fun segment hsegment =>
  (Mask.cuts_legible hm (by decide)).splitOn h segment (List.mem_of_mem_filter hsegment)

theorem Mask.Legible.splitQuery (hm : Mark m.mark) (h : m.Legible t) :
    ∀ pair ∈ splitQuery t, m.Legible pair.1 ∧ m.Legible pair.2 := by
  intro pair hpair
  obtain ⟨text, htext, rfl⟩ := List.mem_map.1 hpair
  have hlegible := (Mask.cuts_legible hm (by decide)).splitOn h text (List.mem_of_mem_filter htext)
  exact (Mask.cuts_legible hm (by decide)).cutAtD (Mask.legible_nil hm) hlegible

end

/-! ## Addresses that form their own mark -/

/-- The mark for an address occurs in it once the address is cleaned. -/
def FormsMark (raw : List Char) : Prop := markFor raw <:+: clean raw

instance : DecidablePred FormsMark := fun raw =>
  inferInstanceAs (Decidable (markFor raw <:+: clean raw))

/-- An address that forms its own mark is interrupted by a tab or a line end. -/
theorem FormsMark.exists_mem {raw : List Char} (h : FormsMark raw) :
    ∃ c ∈ raw, interrupts c = true := by
  by_contra hnone
  have hclean : clean raw = raw.dropWhile (·.toNat ≤ 32) := by
    rw [clean_eq]
    refine List.filter_eq_self.2 fun c hc => ?_
    simpa using fun hi => hnone ⟨c, (List.dropWhile_suffix _).subset hc, hi⟩
  rw [FormsMark, hclean] at h
  exact (markFor_spec raw).2 (h.trans (List.dropWhile_suffix _).isInfix)

theorem avoids_splitAuthority (hostPort : List Char) :
    Avoids (splitAuthority hostPort) (.token .unknown) := by
  rw [splitAuthority]
  dsimp only
  split
  · exact nofun
  · split
    · exact nofun
    · split
      · exact nofun
      · exact nofun

/-- Splitting by the generic syntax meets no unknown token. -/
theorem avoids_splitGenerically {raw : List Char} (h : ¬ FormsMark raw) :
    Avoids (splitGenerically raw) (.token .unknown) := by
  have hm : Mark (Mask.ofText raw).mark := (markFor_spec raw).1
  have hlegible : (Mask.ofText raw).Legible (clean ((Mask.ofText raw).apply raw)) :=
    ⟨clean raw, (covers_apply raw).clean hm, h⟩
  rw [splitGenerically]
  dsimp only
  refine Avoids.bind ?_ fun parts hparts => ?_
  · rcases Reference.ofText ((Mask.ofText raw).apply raw) with fault | parts
    · exact nofun
    · exact nofun
  have hreference := hlegible.reference hm (mapError_eq_ok.1 hparts)
  split
  · exact nofun
  refine Avoids.bind ((hreference.authority.dropCredentials hm).avoids hm) fun hostPort _ => ?_
  refine (avoids_splitAuthority _).bind fun authority _ => ?_
  refine Avoids.bind (.mapM fun segment hsegment =>
    (hreference.path.segments hm segment hsegment).avoids hm) fun path _ => ?_
  refine Avoids.bind (.mapM fun pair hpair => ?_) fun query _ => ?_
  · obtain ⟨hkey, hvalue⟩ := hreference.query.splitQuery hm pair hpair
    exact (hkey.avoids hm).bind fun _ _ => (hvalue.avoids hm).bind fun _ _ => nofun
  split
  · exact nofun
  · exact (hreference.fragment.avoids hm).map.bind fun _ _ => nofun

theorem raw_splitGenerically {raw : List Char} {url : Url} (h : splitGenerically raw = .ok url) :
    url.raw = String.ofList raw := by
  rw [splitGenerically] at h
  dsimp only at h
  obtain ⟨parts, -, h⟩ := bind_eq_ok.1 h
  split at h
  · cases h
  obtain ⟨_, -, h⟩ := bind_eq_ok.1 h
  obtain ⟨_, -, h⟩ := bind_eq_ok.1 h
  obtain ⟨_, -, h⟩ := bind_eq_ok.1 h
  obtain ⟨_, -, h⟩ := bind_eq_ok.1 h
  split at h
  · cases h
    rfl
  · obtain ⟨_, -, h⟩ := bind_eq_ok.1 h
    cases h
    rfl

/-- Whatever an address is taken apart into, its text is kept. -/
theorem raw_of_ofText {raw : List Char} {url : Url} (h : ofText raw = .ok url) :
    url.raw = String.ofList raw := by
  rw [ofText] at h
  split at h
  · cases h
    rfl
  split at h
  case h_1 heq =>
    cases h
    exact raw_splitGenerically heq
  case h_2 => cases h
  case h_3 =>
    cases h
    rfl

/-- Only an unknown token keeps an address from being taken apart. -/
theorem fault_of_ofText {raw : List Char} {fault : TokenFault} (h : ofText raw = .error fault) :
    fault = .unknown := by
  rw [ofText] at h
  split at h
  · cases h
  split at h
  case h_1 => cases h
  case h_2 =>
    cases h
    rfl
  case h_3 => cases h

/-- An address that does not form its own mark is taken apart. -/
theorem exists_ofText {raw : List Char} (h : ¬ FormsMark raw) : ∃ url, ofText raw = .ok url := by
  have havoids := avoids_splitGenerically h
  rw [ofText]
  split
  · exact ⟨_, rfl⟩
  split
  case h_1 => exact ⟨_, rfl⟩
  case h_2 heq => exact absurd heq havoids
  case h_3 => exact ⟨_, rfl⟩

end Courier.Url
