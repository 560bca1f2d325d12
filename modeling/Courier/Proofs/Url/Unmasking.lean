import Courier.Proofs.Outcome
import Courier.Proofs.Url.Recovery

/-!
# Unmasking a masked address part by part

A masked address is cut into parts, and the parts are unmasked one by one.  Wherever the cuts fall
outside of its tokens, nothing else is taken for a token, and the restored parts together are the
address.

* `Mark.infix_of_lt` says that the mark for a text is the shortest one that does not occur in it.
* A masked text is a row of signs, characters and tokens.  `signsFrom` are the signs that masking
  writes, `spell` writes signs down, and `readSigns` reads them again as restoring does: restoring
  is reading and then unmasking sign by sign (`Mask.restore_eq`).
* `Unmarked` says that no mark begins before the next token.  It holds of the signs of an address
  (`unmarked_signsFrom`) and of any run of them, and such signs are read as they were written
  (`readSigns_spell`): a mark that begins in literal text would have to end before the next token.
* `flatMap_readSigns` puts the parts together: each is spelled by a run of the signs, because a cut
  outside of the tokens falls between two signs (`OutsideTokens.exists_split`).
-/

namespace Courier.Url

open Outcome (bind_eq_ok)

/-! ## The shortest mark -/

theorem Mark.eq_of_length_eq {mark other : List Char} (hm : Mark mark) (hother : Mark other)
    (h : mark.length = other.length) : mark = other := by
  obtain ⟨n, rfl⟩ := hm
  obtain ⟨k, rfl⟩ := hother
  simp only [List.length_append, List.length_replicate, Nat.add_right_cancel_iff] at h
  rw [h]

/-- A longer mark is tried only after every shorter one was found in the text. -/
theorem infix_of_length_lt_extendMark {s mark other : List Char} {tries : Nat} (hm : Mark mark)
    (hother : Mark other) (hshorter : other.length < mark.length → other <:+: s)
    (h : other.length < (extendMark s tries mark).length) : other <:+: s := by
  induction tries generalizing mark with
  | zero => exact hshorter h
  | succ tries ih =>
    rw [extendMark] at h
    split at h
    case isFalse => exact hshorter h
    case isTrue hfound =>
      refine ih hm.underscore (fun hlt => ?_) h
      rcases Nat.lt_or_eq_of_le (Nat.le_of_lt_succ hlt) with hlt | heq
      · exact hshorter hlt
      · rw [hother.eq_of_length_eq hm heq]
        exact contains_iff_infix mark s |>.1 hfound

/-- Every mark that is shorter than the mark for a text occurs in the text. -/
theorem Mark.infix_of_lt {s mark : List Char} (hm : Mark mark)
    (h : mark.length < (markFor s).length) : mark <:+: s := by
  refine infix_of_length_lt_extendMark ⟨0, rfl⟩ hm (fun hlt => ?_) h
  obtain ⟨n, rfl⟩ := hm
  rw [List.length_append] at hlt
  simp only [List.replicate_zero, List.nil_append] at hlt
  omega

/-! ## Signs -/

/-- A sign of a masked text: a character that stands for itself, or a token by its digits. -/
inductive Sign where
  | char (c : Char)
  | token (digits : List Char)
  deriving DecidableEq, Repr

/-- A sign as it is written. -/
def Sign.text (mark : List Char) : Sign → List Char
  | .char c => [c]
  | .token digits => mark ++ digits ++ "__".toList

/-- Signs as they are written. -/
def spell (mark : List Char) (signs : List Sign) : List Char := signs.flatMap (Sign.text mark)

@[simp] theorem spell_nil (mark : List Char) : spell mark [] = [] := rfl

@[simp] theorem spell_cons (mark : List Char) (sign : Sign) (signs : List Sign) :
    spell mark (sign :: signs) = sign.text mark ++ spell mark signs := rfl

@[simp] theorem spell_append (mark : List Char) (front back : List Sign) :
    spell mark (front ++ back) = spell mark front ++ spell mark back :=
  List.flatMap_append

theorem flatten_map_spell (mark : List Char) (runs : List (List Sign)) :
    (runs.map (spell mark)).flatten = spell mark runs.flatten := by
  induction runs with
  | nil => rfl
  | cons run runs ih => rw [List.map_cons, List.flatten_cons, ih, List.flatten_cons, spell_append]

/-- The signs that stand for pieces, the placeholders numbered from `number` on. -/
def signsFrom (number : Nat) : List Piece → List Sign
  | [] => []
  | .char c :: rest => .char c :: signsFrom number rest
  | .placeholder _ :: rest => .token (Nat.toDigits 10 number) :: signsFrom (number + 1) rest

theorem text_token_toDigits (mark : List Char) (number : Nat) :
    (Sign.token (Nat.toDigits 10 number)).text mark = token mark number := by
  simp [Sign.text, token]

theorem spell_signsFrom (mark : List Char) (number : Nat) (ps : List Piece) :
    spell mark (signsFrom number ps) = maskFrom mark number ps := by
  induction ps generalizing number with
  | nil => rfl
  | cons piece ps ih =>
    cases piece with
    | char c => rw [signsFrom, spell_cons, ih, maskFrom, Sign.text, List.singleton_append]
    | placeholder name => rw [signsFrom, spell_cons, ih, maskFrom, text_token_toDigits]

/-- Tokens are numbered in decimal. -/
theorem exists_toDigits_of_mem_signsFrom {digits : List Char} {number : Nat} {ps : List Piece}
    (h : Sign.token digits ∈ signsFrom number ps) : ∃ n, digits = Nat.toDigits 10 n := by
  induction ps generalizing number with
  | nil => cases h
  | cons piece ps ih =>
    cases piece with
    | char c => exact ih (List.mem_of_ne_of_mem (by simp) h)
    | placeholder name =>
      rcases List.mem_cons.1 h with heq | h
      · exact ⟨number, Sign.token.inj heq⟩
      · exact ih h

/-! ## Reading signs -/

/-- Reads a text as restoring does, tokens as far to the left as possible. -/
def readSigns (mark s : List Char) : List Sign :=
  match s with
  | [] => []
  | c :: rest =>
    match leadingDigits? mark (c :: rest) with
    | some digits =>
      .token digits :: readSigns mark (rest.drop (mark.length + digits.length + 1))
    | none => .char c :: readSigns mark rest
termination_by s.length
decreasing_by all_goals (simp only [List.length_drop, List.length_cons]; omega)

/-- Unmasks one sign. -/
def Mask.unmask (m : Mask) : Sign → Except TokenFault (List Char)
  | .char c => .ok [c]
  | .token digits => m.placeholder digits

/-- Restoring a text is reading its signs and unmasking each. -/
theorem Mask.restore_eq (m : Mask) (s : List Char) :
    m.restore s = ((readSigns m.mark s).mapM m.unmask).map List.flatten := by
  induction s using Mask.restore.induct m with
  | case1 => rw [Mask.restore, readSigns, List.mapM_nil]; rfl
  | case2 c rest digits hlead ih =>
    rw [Mask.restore, readSigns, hlead]
    simp only [List.mapM_cons, ih, Mask.unmask]
    rcases m.placeholder digits with fault | text
    · rfl
    · rcases (readSigns m.mark _).mapM m.unmask with fault | texts <;> rfl
  | case3 c rest hlead ih =>
    rw [Mask.restore, readSigns, hlead]
    simp only [List.mapM_cons, ih, Mask.unmask]
    rcases (readSigns m.mark rest).mapM m.unmask with fault | texts <;> rfl

theorem readSigns_char {mark : List Char} {c : Char} {s : List Char} (h : ¬ mark <+: c :: s) :
    readSigns mark (c :: s) = .char c :: readSigns mark s := by
  rw [readSigns, leadingDigits?_of_not_prefix h]

theorem readSigns_token {mark : List Char} (hm : Mark mark) (number : Nat) (s : List Char) :
    readSigns mark (token mark number ++ s) =
      .token (Nat.toDigits 10 number) :: readSigns mark s := by
  obtain ⟨c, tail, htoken, hlength⟩ := exists_token_eq_cons hm number
  have hlead := leadingDigits?_token mark number s
  rw [htoken, List.cons_append] at hlead ⊢
  rw [readSigns, hlead]
  simp only [List.drop_left' hlength]

/-! ## Literal text -/

/-- The characters that signs begin with. -/
def literal : List Sign → List Char
  | [] => []
  | .char c :: rest => c :: literal rest
  | .token _ :: _ => []

/-- A token begins with the mark, so what is written after literal text is a mark or nothing. -/
theorem spell_eq_literal (mark : List Char) (signs : List Sign) :
    spell mark signs = literal signs ∨
      ∃ rest, spell mark signs = literal signs ++ (mark ++ rest) := by
  induction signs with
  | nil => exact .inl rfl
  | cons sign signs ih =>
    cases sign with
    | char c =>
      rcases ih with h | ⟨rest, h⟩
      · exact .inl (congrArg (c :: ·) h)
      · exact .inr ⟨rest, congrArg (c :: ·) h⟩
    | token digits =>
      refine .inr ⟨digits ++ "__".toList ++ spell mark signs, ?_⟩
      rw [spell_cons, Sign.text, literal, List.nil_append, List.append_assoc, List.append_assoc,
        List.append_assoc]

theorem literal_prefix_append (front back : List Sign) :
    literal front <+: literal (front ++ back) := by
  induction front with
  | nil => exact List.nil_prefix
  | cons sign front ih =>
    cases sign with
    | char c => exact List.cons_prefix_cons.2 ⟨rfl, ih⟩
    | token digits => exact List.nil_prefix

/-- No mark stands in the literal text between tokens. -/
def Unmarked (mark : List Char) (signs : List Sign) : Prop :=
  ∀ back, back <:+ signs → ¬ mark <+: literal back

theorem Unmarked.of_infix {mark : List Char} {run signs : List Sign} (h : Unmarked mark signs)
    (hrun : run <:+: signs) : Unmarked mark run := by
  intro back hback hmark
  obtain ⟨front, rest, rfl⟩ := hrun
  have hsuffix : back ++ rest <:+ front ++ run ++ rest := by
    obtain ⟨skipped, rfl⟩ := hback
    exact ⟨front ++ skipped, by simp⟩
  exact h _ hsuffix (hmark.trans (literal_prefix_append back rest))

theorem literal_prefix_text (number : Nat) (ps : List Piece) :
    literal (signsFrom number ps) <+: ps.flatMap Piece.text := by
  induction ps with
  | nil => exact List.nil_prefix
  | cons piece ps ih =>
    cases piece with
    | char c => exact List.cons_prefix_cons.2 ⟨rfl, ih⟩
    | placeholder name => exact List.nil_prefix

/-- The literal text of a masked text is part of the text. -/
theorem unmarked_signsFrom {mark : List Char} {number : Nat} {ps : List Piece}
    (h : ¬ mark <:+: ps.flatMap Piece.text) : Unmarked mark (signsFrom number ps) := by
  induction ps generalizing number with
  | nil =>
    intro back hback hmark
    rw [List.suffix_nil.1 hback] at hmark
    exact h hmark.isInfix
  | cons piece ps ih =>
    have htail : ∀ number, Unmarked mark (signsFrom number ps) := fun number =>
      ih fun hi => h (hi.trans (List.suffix_append piece.text _).isInfix)
    intro back hback hmark
    have hwhole : back ≠ signsFrom number (piece :: ps) := by
      rintro rfl
      exact h (hmark.trans (literal_prefix_text number _)).isInfix
    cases piece with
    | char c => exact htail number back ((List.suffix_cons_iff.1 hback).resolve_left hwhole) hmark
    | placeholder name =>
      exact htail (number + 1) back ((List.suffix_cons_iff.1 hback).resolve_left hwhole) hmark

/-- Signs are read as they were written, when no mark stands between the tokens. -/
theorem readSigns_spell {mark : List Char} (hm : Mark mark) {signs : List Sign}
    (hfree : Unmarked mark signs)
    (hdigits : ∀ digits, .token digits ∈ signs → ∃ n, digits = Nat.toDigits 10 n) :
    readSigns mark (spell mark signs) = signs := by
  induction signs with
  | nil => rw [spell_nil, readSigns]
  | cons sign signs ih =>
    have hread := ih (hfree.of_infix (List.suffix_cons sign signs).isInfix)
      fun digits hmem => hdigits digits (List.mem_cons_of_mem _ hmem)
    cases sign with
    | char c =>
      have hstart : ¬ mark <+: c :: spell mark signs := by
        -- The next token begins with the mark, so a mark at `c` would end before it.
        intro hp
        refine hfree _ List.suffix_rfl ?_
        rcases spell_eq_literal mark signs with h | ⟨rest, h⟩
        · rwa [h] at hp
        · rw [h] at hp
          exact hm.prefix_of_prefix_append (List.cons_ne_nil c (literal signs)) hp
      rw [spell_cons, Sign.text, List.singleton_append, readSigns_char hstart, hread]
    | token digits =>
      obtain ⟨number, rfl⟩ := hdigits digits List.mem_cons_self
      rw [spell_cons, text_token_toDigits, readSigns_token hm, hread]

/-! ## Cuts -/

/-- A point of the text that signs spell lies at an end of each token or outside of it. -/
def OutsideTokens (mark : List Char) (signs : List Sign) (point : Nat) : Prop :=
  ∀ before digits after, signs = before ++ .token digits :: after →
    point ≤ (spell mark before).length ∨ (spell mark (before ++ [.token digits])).length ≤ point

theorem OutsideTokens.of_append {mark : List Char} {front back : List Sign} {point : Nat}
    (h : OutsideTokens mark (front ++ back) ((spell mark front).length + point)) :
    OutsideTokens mark back point := by
  rintro before digits after rfl
  have hcut := h (front ++ before) digits after (by simp)
  simp only [List.append_assoc, spell_append, List.length_append] at hcut ⊢
  omega

/-- A point outside of the tokens lies between two signs. -/
theorem OutsideTokens.exists_split {mark : List Char} {signs : List Sign} {point : Nat}
    (h : OutsideTokens mark signs point) (hpoint : point ≤ (spell mark signs).length) :
    ∃ front back, signs = front ++ back ∧ (spell mark front).length = point := by
  induction signs generalizing point with
  | nil => exact ⟨[], [], rfl, (Nat.le_zero.1 hpoint).symm⟩
  | cons sign signs ih =>
    rcases Nat.eq_zero_or_pos point with rfl | hpos
    · exact ⟨[], sign :: signs, rfl, rfl⟩
    · have hfirst : (spell mark [sign]).length ≤ point := by
        cases sign with
        | char c => exact hpos
        | token digits => exact (h [] digits signs rfl).resolve_left (Nat.not_le.2 hpos)
      obtain ⟨rest, rfl⟩ := Nat.exists_eq_add_of_le hfirst
      have hrest : OutsideTokens mark signs rest :=
        OutsideTokens.of_append (by rwa [← List.singleton_append] at h)
      obtain ⟨front, back, rfl, hlength⟩ := ih hrest (by simp at hpoint; omega)
      exact ⟨sign :: front, back, rfl, by simp [hlength]⟩

/-- No end of a sign lies inside of a token. -/
theorem outsideTokens_append (mark : List Char) (front back : List Sign) :
    OutsideTokens mark (front ++ back) (spell mark front).length := by
  intro before digits after h
  rcases List.append_eq_append_iff.1 h with ⟨extra, rfl, -⟩ | ⟨extra, rfl, hextra⟩
  · exact .inl (by simp)
  · rcases extra with _ | ⟨sign, extra⟩
    · exact .inl (by simp)
    · obtain ⟨rfl, -⟩ := List.cons.inj hextra
      exact .inr (by simp)

/-- Texts that runs of signs spell are cut outside of the tokens. -/
theorem outsideTokens_flatten {mark : List Char} {runs : List (List Sign)}
    {front back : List (List Char)} (h : runs.map (spell mark) = front ++ back) :
    OutsideTokens mark runs.flatten front.flatten.length := by
  obtain ⟨before, after, rfl, rfl, rfl⟩ := List.map_eq_append_iff.1 h
  rw [flatten_map_spell, List.flatten_append]
  exact outsideTokens_append mark before.flatten after.flatten

/-- Parts that are cut outside of the tokens are read as the signs of the whole. -/
theorem flatMap_readSigns {mark : List Char} (hm : Mark mark) {signs : List Sign}
    (hfree : Unmarked mark signs)
    (hdigits : ∀ digits, .token digits ∈ signs → ∃ n, digits = Nat.toDigits 10 n)
    {parts : List (List Char)} (hparts : parts.flatten = spell mark signs)
    (hcuts : ∀ front back, parts = front ++ back → OutsideTokens mark signs front.flatten.length) :
    parts.flatMap (readSigns mark) = signs := by
  induction parts generalizing signs with
  | nil =>
    have hread := readSigns_spell hm hfree hdigits
    rw [← hparts, List.flatten_nil, readSigns] at hread
    exact hread
  | cons part parts ih =>
    have hcut : OutsideTokens mark signs part.length := by simpa using hcuts [part] parts rfl
    obtain ⟨run, rest, rfl, hlength⟩ := hcut.exists_split (by simp [← hparts])
    -- The first part is what `run` spells, and the other parts are cut from what `rest` spells.
    rw [spell_append, List.flatten_cons] at hparts
    obtain ⟨rfl, hrest⟩ := List.append_inj hparts hlength.symm
    have hread := readSigns_spell hm (hfree.of_infix (List.prefix_append run rest).isInfix)
      fun digits hmem => hdigits digits (List.mem_append_left _ hmem)
    have hothers := ih (hfree.of_infix (List.suffix_append run rest).isInfix)
      (fun digits hmem => hdigits digits (List.mem_append_right _ hmem)) hrest
      fun front back heq => OutsideTokens.of_append (by
        simpa using hcuts (spell mark run :: front) back (by rw [heq, List.cons_append]))
    rw [List.flatMap_cons, hread, hothers]

/-! ## Restored parts -/

/-- Unmasking the signs of pieces gives the pieces, if the number of placeholders can be written. -/
theorem Mask.mapM_unmask {m : Mask} {number : Nat} {ps : List Piece}
    (hnames : m.names.drop number = placeholderNames ps)
    (hcount : (Nat.toDigits 10 m.names.length).length ≤ Text.maxNumeralDigits) :
    (signsFrom number ps).mapM m.unmask = .ok (ps.map Piece.text) := by
  induction ps generalizing number with
  | nil => rfl
  | cons piece ps ih =>
    cases piece with
    | char c =>
      rw [signsFrom, List.mapM_cons, ih hnames]
      rfl
    | placeholder name =>
      obtain ⟨hfirst, htail⟩ := getElem?_of_drop_eq_cons hnames
      have hlength : (Nat.toDigits 10 number).length ≤ Text.maxNumeralDigits :=
        (Text.length_toDigits_le_of_lt (List.getElem?_eq_some_iff.1 hfirst).1).trans hcount
      rw [signsFrom, List.mapM_cons, Mask.unmask, Mask.placeholder_toDigits_of_le hfirst hlength,
        ih htail]
      rfl

/-- Parts are restored one by one as their signs are unmasked. -/
theorem Mask.exists_mapM_restore {m : Mask} {parts texts : List (List Char)}
    (h : (parts.flatMap (readSigns m.mark)).mapM m.unmask = .ok texts) :
    ∃ restored, parts.mapM m.restore = .ok restored ∧ restored.flatten = texts.flatten := by
  induction parts generalizing texts with
  | nil =>
    cases h
    exact ⟨[], rfl, rfl⟩
  | cons part parts ih =>
    rw [List.flatMap_cons, List.mapM_append] at h
    obtain ⟨first, hfirst, h⟩ := bind_eq_ok.1 h
    obtain ⟨others, hothers, h⟩ := bind_eq_ok.1 h
    cases h
    obtain ⟨restored, hrestored, hflatten⟩ := ih hothers
    refine ⟨first.flatten :: restored, ?_, by rw [List.flatten_cons, hflatten, List.flatten_append]⟩
    rw [List.mapM_cons, Mask.restore_eq, hfirst, hrestored]
    rfl

/-- The mark for a text is the shortest mark that does not occur in it.  However the masked text is
cut outside of its tokens, the parts are read as just the tokens and characters that masking wrote,
so that no literal text is taken for part of a token; and restoring the parts succeeds and gives the
text.  For restoring, the number of placeholders must not have more digits than are read, which is
so of every text in memory. -/
theorem restore_parts (u : List Char) :
    (Mark (markFor u) ∧ ¬ markFor u <:+: u ∧
      ∀ mark, Mark mark → mark.length < (markFor u).length → mark <:+: u) ∧
    spell (markFor u) (signsFrom 0 (pieces u)) = (Mask.ofText u).apply u ∧
    ∀ parts : List (List Char), parts.flatten = (Mask.ofText u).apply u →
      (∀ front back, parts = front ++ back →
        OutsideTokens (markFor u) (signsFrom 0 (pieces u)) front.flatten.length) →
      parts.flatMap (readSigns (markFor u)) = signsFrom 0 (pieces u) ∧
      ((Nat.toDigits 10 (placeholderNames (pieces u)).length).length ≤ Text.maxNumeralDigits →
        ∃ texts, parts.mapM (Mask.ofText u).restore = .ok texts ∧ texts.flatten = u) := by
  obtain ⟨hmark, hfresh⟩ := markFor_spec u
  have htext : (pieces u).flatMap Piece.text = u := (pieces_spec u).1
  have hspell : spell (markFor u) (signsFrom 0 (pieces u)) = (Mask.ofText u).apply u :=
    spell_signsFrom (markFor u) 0 (pieces u)
  refine ⟨⟨hmark, hfresh, fun mark => Mark.infix_of_lt⟩, hspell, fun parts hparts hcuts => ?_⟩
  have hread : parts.flatMap (readSigns (markFor u)) = signsFrom 0 (pieces u) :=
    flatMap_readSigns hmark (unmarked_signsFrom (by rwa [htext]))
      (fun digits => exists_toDigits_of_mem_signsFrom) (hparts.trans hspell.symm) hcuts
  refine ⟨hread, fun hcount => ?_⟩
  have hunmask : (parts.flatMap (readSigns (markFor u))).mapM (Mask.ofText u).unmask =
      .ok ((pieces u).map Piece.text) := by
    rw [hread]
    exact Mask.mapM_unmask rfl hcount
  obtain ⟨texts, htexts, hflatten⟩ := Mask.exists_mapM_restore hunmask
  exact ⟨texts, htexts, by rw [hflatten, ← List.flatMap_def, htext]⟩

/-- A masked address in which literal text touches tokens on both sides, cut at every end of a
token. -/
theorem restore_parts_touching :
    ∃ texts, ["__var0__".toList, "var1__/_".toList, "__var1__".toList].mapM
        (Mask.ofText "\x7b\x7ba\x7d\x7dvar1__/_\x7b\x7bb\x7d\x7d".toList).restore =
          .ok texts ∧
      texts.flatten = "\x7b\x7ba\x7d\x7dvar1__/_\x7b\x7bb\x7d\x7d".toList := by
  generalize hu : "\x7b\x7ba\x7d\x7dvar1__/_\x7b\x7bb\x7d\x7d".toList = u
  have hpieces : pieces u = .placeholder ['a'] ::
      ("var1__/_".toList.map .char ++ [.placeholder ['b']]) := by
    subst hu
    cbv
  have hmark : markFor u = baseMark := by
    subst hu
    cbv
  let runs : List (List Sign) := [[.token ['0']], "var1__/_".toList.map .char, [.token ['1']]]
  have hsigns : signsFrom 0 (pieces u) = runs.flatten := by
    rw [hpieces]
    decide
  have hmasked : ["__var0__".toList, "var1__/_".toList, "__var1__".toList].flatten =
      (Mask.ofText u).apply u := by
    rw [← (restore_parts u).2.1, hsigns, hmark]
    decide
  refine ((restore_parts u).2.2 _ hmasked fun front back hparts => ?_).2 ?_
  · have hruns : runs.map (spell baseMark) =
        ["__var0__".toList, "var1__/_".toList, "__var1__".toList] := by decide
    rw [hsigns, hmark]
    exact outsideTokens_flatten (hruns.trans hparts)
  · rw [hpieces]
    decide

end Courier.Url
