import Courier.Proofs.Script.Substitution
import Mathlib.Tactic.Common

/-!
# Characters that separate

A quotation mark, a slash or an operator belongs to no name, access or call, and no substitution
looks past it (`replacement?_append_of_separated`).  What comes after such a character is converted
as if a line began there (`pass_separator`).

A table is `Solid` when its replacements hold no such character either.  The separators of a text
then are those of the converted text, in the same order, with converted text between them.
-/

namespace Courier.Script.Textual

open Courier.Text (isBlank isWord isWord_of_isBlank)

/-- A character that is no part of a name, an access or a call, and no blank character. -/
def separates (c : Char) : Bool := !joins c && !isBlank c && c != '(' && c != ')'

/-- The text is empty or begins with a character that separates. -/
def Separated (text : List Char) : Prop := ∀ c ∈ text.head?, separates c = true

/-- No replacement holds a character that separates. -/
def Solid (table : List Substitution) : Prop := ∀ s ∈ table, ∀ c ∈ s.target, separates c = false

instance : DecidablePred Solid := fun table =>
  inferInstanceAs (Decidable (∀ s ∈ table, ∀ c ∈ s.target, separates c = false))

section

variable {table : List Substitution} {s : Substitution} {before before' rest text word : List Char}
  {c : Char}

/-! ## Characters -/

theorem joins_of_separates (h : separates c = true) : joins c = false := by
  simp only [separates, Bool.and_eq_true, Bool.not_eq_true'] at h
  exact h.1.1.1

theorem isBlank_of_separates (h : separates c = true) : isBlank c = false := by
  simp only [separates, Bool.and_eq_true, Bool.not_eq_true'] at h
  exact h.1.1.2

theorem isWord_of_separates (h : separates c = true) : isWord c = false := by
  have hjoins := joins_of_separates h
  simp only [joins, Bool.or_eq_false_iff] at hjoins
  exact hjoins.1.1

theorem separates_of_joins (h : joins c = true) : separates c = false := by
  simp [separates, h]

theorem separates_of_isBlank (h : isBlank c = true) : separates c = false := by
  simp [separates, h]

theorem separates_of_mem_declaringWord (h : c ∈ declaringWord) : separates c = false := by
  revert h
  revert c
  decide +kernel

theorem Separated.nil : Separated [] := by
  simp [Separated]

theorem Separated.cons (h : separates c = true) (rest : List Char) : Separated (c :: rest) := by
  simp [Separated, h]

/-! ## What a substitution sees -/

theorem head?_dropWhile_append {p : Char → Bool} (h : ∀ c ∈ rest.head?, p c = false) :
    ((text ++ rest).dropWhile p).head? = (text.dropWhile p).head?.or rest.head? := by
  induction text with
  | nil =>
    rcases rest with _ | ⟨c, rest⟩
    · rfl
    · simp [h c rfl]
  | cons d text ih =>
    by_cases hd : p d = true
    · simp [hd, ih]
    · simp [hd]

theorem takeWhile_append_of_head {p : Char → Bool} (h : ∀ c ∈ rest.head?, p c = false) :
    (text ++ rest).takeWhile p = text.takeWhile p := by
  induction text with
  | nil =>
    rcases rest with _ | ⟨c, rest⟩
    · rfl
    · simp [h c rfl]
  | cons d text ih => simp [List.takeWhile_cons, ih]

/-- An ending does not look at a separator or behind it. -/
theorem Ending.length?_append_of_separated (e : Ending) (h : Separated rest) :
    e.length? (text ++ rest) = e.length? text := by
  have hblank : ∀ c ∈ rest.head?, isBlank c = false := fun c hc => isBlank_of_separates (h c hc)
  have hhead : ∀ (d : Char) (inner : List Char), separates d = false →
      (((inner ++ rest).dropWhile isBlank).head? = some d ↔
        (inner.dropWhile isBlank).head? = some d) := by
    intro d inner hd
    rw [head?_dropWhile_append hblank]
    cases hfirst : (inner.dropWhile isBlank).head? with
    | some c => simp
    | none =>
      simp only [Option.none_or, reduceCtorEq, iff_false]
      intro hrest
      rw [h d hrest] at hd
      cases hd
  have hends : endsWord (text ++ rest) = endsWord text := by
    rcases text with _ | ⟨d, text⟩
    · rcases rest with _ | ⟨c, rest⟩
      · rfl
      · simp [endsWord, isWord_of_separates (h c rfl)]
    · rfl
  have hopens : opensCall (text ++ rest) = opensCall text := by
    rw [Bool.eq_iff_iff]
    simpa [opensCall] using hhead '(' text (by decide)
  cases e with
  | wordEnd => simp [Ending.length?, hends]
  | notCalled => simp [Ending.length?, hends, hopens]
  | called => simp [Ending.length?, hopens]
  | emptyCall =>
    rcases text with _ | ⟨d, text⟩
    · rcases rest with _ | ⟨c, rest⟩
      · rfl
      · have hc : c ≠ '(' := by
          rintro rfl
          exact absurd (h '(' rfl) (by decide)
        simp [Ending.length?, hc]
    · by_cases hd : d = '('
      · subst hd
        simp only [List.cons_append, Ending.length?, hhead ')' text (by decide),
          takeWhile_append_of_head hblank]
      · simp [Ending.length?, hd]

/-- Joined words begin a text before a separator when they begin the whole text. -/
theorem prefix_append_of_separated (hword : ∀ c ∈ word, joins c = true) (h : Separated rest) :
    word <+: text ++ rest ↔ word <+: text := by
  refine ⟨fun hprefix => ?_, fun hprefix => hprefix.trans (List.prefix_append _ _)⟩
  rcases List.prefix_or_prefix_of_prefix hprefix (List.prefix_append text rest) with hboth | hboth
  · exact hboth
  · obtain ⟨part, rfl⟩ := hboth
    have hpart := (List.prefix_append_right_inj text).1 hprefix
    rcases part with _ | ⟨c, part⟩
    · simp
    · obtain ⟨tail, rfl⟩ := hpart
      have hjoins := hword c (by simp)
      rw [joins_of_separates (h c rfl)] at hjoins
      cases hjoins

theorem Substitution.Regular.length?_append_of_separated (hs : s.Regular) (h : Separated rest) :
    s.length? before (text ++ rest) = s.length? before text := by
  by_cases hwords : s.words <+: text
  · obtain ⟨after, rfl⟩ := hwords
    rw [List.append_assoc, Substitution.length?_append, Substitution.length?_append,
      s.ending.length?_append_of_separated h]
  · have hwords' : ¬ s.words <+: text ++ rest := by
      rwa [prefix_append_of_separated hs.joined h]
    rw [s.length?_of_not_prefix hwords, s.length?_of_not_prefix hwords']

theorem replacement?_append_of_separated (htable : ∀ s ∈ table, s.Regular) (h : Separated rest) :
    replacement? table before (text ++ rest) = replacement? table before text := by
  induction table with
  | nil => rfl
  | cons s table ih =>
    rw [replacement?_cons, replacement?_cons,
      (htable s List.mem_cons_self).length?_append_of_separated h,
      ih fun u hu => htable u (List.mem_cons_of_mem _ hu)]

/-! ## What comes after a separator -/

theorem replacement?_of_behind (htable : ∀ s ∈ table, s.Regular)
    (hbehind : Behind before before' (c :: rest)) :
    replacement? table before' (c :: rest) = replacement? table before (c :: rest) := by
  have hnone : ∀ s ∈ ([] : List Substitution), s.Regular := by simp
  have h := replacement?_pass htable hnone hbehind
  rwa [pass_empty] at h

/-- A table makes the same of a text behind texts that are alike to it. -/
theorem pass_of_behind (htable : ∀ s ∈ table, s.Regular) (hbehind : Behind before before' text) :
    pass table before' text = pass table before text := by
  induction before, text using pass_induction htable generalizing before' with
  | nil before => rfl
  | keep before c rest hfits ih =>
    rw [pass_keep hfits, pass_keep ((replacement?_of_behind htable hbehind).trans hfits),
      ih (hbehind.cons c rest)]
  | replace before word rest s hs hlength hfits ih =>
    have hne := (Substitution.covers_of_length? hlength).ne_nil (htable s hs)
    have hfits' : replacement? table before' (word ++ rest) = some (word.length, s.target) := by
      obtain ⟨c, word, rfl⟩ := List.exists_cons_of_ne_nil hne
      exact (replacement?_of_behind htable hbehind).trans hfits
    rw [pass_replace hne hfits, pass_replace hne hfits', ih (hbehind.append hne rest)]

/-- Behind a separator a text is as at the beginning of a line. -/
theorem behind_of_separates (h : separates c = true) (before text : List Char) :
    Behind (c :: before) [] text := by
  refine ⟨.inl (by simp [beginsName, joins_of_separates h]), fun part hpart => ?_⟩
  rcases part with _ | ⟨d, part⟩
  · simp
  · have hd : separates d = false :=
      separates_of_mem_declaringWord (hpart.subset List.mem_cons_self)
    rw [List.prefix_nil, List.cons_prefix_cons]
    refine iff_of_false (by simp) fun hboth => ?_
    rw [hboth.1, h] at hd
    cases hd

/-- A separator is kept, and what comes after it is converted like a line of its own. -/
theorem pass_separator (htable : ∀ s ∈ table, s.Regular) (h : separates c = true)
    (before rest : List Char) : pass table before (c :: rest) = c :: pass table [] rest := by
  have hnone : replacement? table before (c :: rest) = none :=
    replacement?_eq_none_iff.2 fun s hs => (htable s hs).length?_of_not_word (isWord_of_separates h)
  rw [pass_keep hnone, pass_of_behind htable (behind_of_separates h before rest)]

/-! ## Separators of a converted text -/

/-- What a substitution covers holds no separator. -/
theorem Substitution.Covers.not_separates (h : s.Covers word rest) (hs : s.Regular) :
    ∀ c ∈ word, separates c = false := by
  have hwords : ∀ c ∈ s.words, separates c = false := fun c hc =>
    separates_of_joins (hs.joined c hc)
  cases h with
  | words hend => exact hwords
  | @call blanks _ hending hblanks =>
    intro c hc
    rcases List.mem_append.1 hc with hc | hc
    · exact hwords c hc
    rcases List.mem_cons.1 hc with rfl | hc
    · decide
    rcases List.mem_append.1 hc with hc | hc
    · exact separates_of_isBlank (hblanks c hc)
    · rw [List.mem_singleton.1 hc]
      decide

/-- A converted text begins with the same separators as the text. -/
theorem prefix_pass_iff_of_separates (htable : ∀ s ∈ table, s.Regular)
    (hword : ∀ c ∈ word, separates c = true) :
    word <+: pass table before text ↔ word <+: text := by
  induction word generalizing before text with
  | nil => simp
  | cons d word ih =>
    have hd : isWord d = false := isWord_of_separates (hword d List.mem_cons_self)
    rcases text with _ | ⟨c, rest⟩
    · simp
    rcases pass_cons_cases htable before c rest with hkeep | ⟨hc, e, tail, he, hpass⟩
    · rw [hkeep, List.cons_prefix_cons, List.cons_prefix_cons,
        ih fun e he => hword e (List.mem_cons_of_mem _ he)]
    · -- Words begin on both sides.
      rw [hpass, List.cons_prefix_cons, List.cons_prefix_cons]
      refine iff_of_false ?_ ?_
      · rintro ⟨rfl, -⟩
        rw [hd] at he
        cases he
      · rintro ⟨rfl, -⟩
        rw [hd] at hc
        cases hc

end

end Courier.Script.Textual
