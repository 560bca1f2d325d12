import Courier.Proofs.Script.Separation
import Courier.Proofs.Text.Trim
import Mathlib.Tactic.Common

/-!
# The code of a line

What counts as code in a line is the line with its string literals emptied and its trailing comment
cut off.  Quotation marks, backslashes and slashes are separators and substitutions keep them, so
that it makes no difference whether a line is converted first or its code is taken first:
`emptyLiterals_pass` and `beforeComment_pass`.  A comment line stays one (`isCommentLine_pass`).

A literal is read from its opening mark by `afterLiteral?`, one character at a time, with a flag for
a character that a backslash protects.  `afterLiteral?_pass` follows it through a conversion, also
where it finds no end.
-/

namespace Courier.Script.Textual

open Courier.Text (isBlank isWord trim)

/-- The code of a line: its literals are emptied, and a comment at its end is cut off. -/
def code (line : List Char) : List Char := beforeComment (emptyLiterals line)

/-- What comes after a string literal, given the text inside it from some place on and whether the
character at this place is protected by a backslash.  `none` when the literal is not closed. -/
def afterLiteral? (quote : Char) : Bool → List Char → Option (List Char)
  | _, [] => none
  | true, c :: rest => if c = '\n' then none else afterLiteral? quote false rest
  | false, c :: rest => if c = quote then some rest else afterLiteral? quote (c == '\\') rest

section

variable {table : List Substitution} {s : Substitution} {before rest text word : List Char}
  {c quote : Char} {escaped : Bool}

/-! ## Literals -/

theorem separates_of_isQuote (h : isQuote c = true) : separates c = true := by
  simp only [isQuote, Bool.or_eq_true, beq_iff_eq] at h
  rcases h with (rfl | rfl) | h
  · decide
  · decide
  · rw [← Char.ofNat_toNat c, h]
    decide

/-- The length of a literal is that of what `afterLiteral?` passes over. -/
theorem literalLength?_cases (hquote : quote ≠ '\\') (text : List Char) :
    (afterLiteral? quote false text = none ∧ literalLength? quote text = none) ∨
      ∃ body rest, text = body ++ rest ∧ afterLiteral? quote false text = some rest ∧
        literalLength? quote text = some body.length := by
  fun_induction literalLength? quote text with
  | case1 => exact .inl ⟨rfl, rfl⟩
  | case2 rest => exact .inl ⟨by simp [afterLiteral?, hquote.symm], rfl⟩
  | case3 c rest hc ih =>
    have hafter : afterLiteral? quote false ('\\' :: c :: rest) =
        afterLiteral? quote false rest := by
      simp [afterLiteral?, hquote.symm, hc]
    rw [hafter]
    rcases ih with ⟨hnone, hlength⟩ | ⟨body, after, rfl, hsome, hlength⟩
    · exact .inl ⟨hnone, by simp [hlength]⟩
    · exact .inr ⟨'\\' :: c :: body, after, rfl, hsome, by simp [hlength]⟩
  | case4 rest _ => exact .inr ⟨[quote], rest, rfl, by simp [afterLiteral?], rfl⟩
  | case5 rest hprotects hc =>
    -- The backslash ends the text.
    rcases rest with _ | ⟨d, rest⟩
    · exact .inl ⟨by simp [afterLiteral?, hc], rfl⟩
    · exact absurd rfl (hprotects d rest rfl)
  | case6 c rest _ hc hslash ih =>
    have hafter : afterLiteral? quote false (c :: rest) = afterLiteral? quote false rest := by
      have hplain : (c == '\\') = false := by simpa using hslash
      simp [afterLiteral?, hc, hplain]
    rw [hafter]
    rcases ih with ⟨hnone, hlength⟩ | ⟨body, after, rfl, hsome, hlength⟩
    · exact .inl ⟨hnone, by simp [hlength]⟩
    · exact .inr ⟨c :: body, after, rfl, hsome, by simp [hlength]⟩

/-- What comes after the string literal that a character opens, `none` when it opens none. -/
def afterOpened? (c : Char) (rest : List Char) : Option (List Char) :=
  if isQuote c then afterLiteral? c false rest else none

theorem emptyLiteralsFrom_append (word rest : List Char) :
    emptyLiteralsFrom word.length (word ++ rest) = emptyLiterals rest := by
  induction word with
  | nil => rfl
  | cons c word ih => exact ih

theorem emptyLiterals_cons (c : Char) (rest : List Char) : emptyLiterals (c :: rest) =
    match afterOpened? c rest with
    | some after => '"' :: '"' :: emptyLiterals after
    | none => c :: emptyLiterals rest := by
  rw [emptyLiterals, emptyLiteralsFrom, afterOpened?]
  by_cases hc : isQuote c = true
  · have hslash : c ≠ '\\' := by
      rintro rfl
      exact absurd hc (by decide)
    rw [if_pos hc, if_pos hc]
    rcases literalLength?_cases hslash rest with ⟨hnone, hlength⟩ | ⟨body, after, rfl, hsome, hlength⟩
    · rw [hnone, hlength]
      rfl
    · rw [hsome, hlength]
      simp only [emptyLiteralsFrom_append]
  · rw [if_neg hc, if_neg hc]
    rfl

/-- The state of a literal is the same after any text that begins with a word character and holds
no separator. -/
theorem afterLiteral?_append (hquote : isQuote quote = true) (escaped : Bool)
    (hhead : word.head?.any isWord = true) (hword : ∀ c ∈ word, separates c = false)
    (rest : List Char) :
    afterLiteral? quote escaped (word ++ rest) = afterLiteral? quote false rest := by
  have hplain : ∀ c ∈ word, c ≠ quote ∧ (c == '\\') = false := by
    refine fun c hc => ⟨?_, ?_⟩
    · rintro rfl
      have hsep := hword c hc
      rw [separates_of_isQuote hquote] at hsep
      cases hsep
    · have hne : c ≠ '\\' := by
        rintro rfl
        exact absurd (hword _ hc) (by decide)
      simpa using hne
  have hunescaped : ∀ word : List Char, (∀ c ∈ word, c ≠ quote ∧ (c == '\\') = false) →
      afterLiteral? quote false (word ++ rest) = afterLiteral? quote false rest := by
    intro word hword
    induction word with
    | nil => rfl
    | cons c word ih =>
      obtain ⟨hne, hslash⟩ := hword c List.mem_cons_self
      rw [List.cons_append, afterLiteral?, if_neg hne, hslash]
      exact ih fun d hd => hword d (List.mem_cons_of_mem _ hd)
  rcases word with _ | ⟨c, word⟩
  · simp at hhead
  cases escaped with
  | false => exact hunescaped (c :: word) hplain
  | true =>
    have hc : c ≠ '\n' := by
      rintro rfl
      have hword : isWord '\n' = true := by simpa using hhead
      exact absurd hword (by decide)
    rw [List.cons_append, afterLiteral?, if_neg hc]
    exact hunescaped word fun d hd => hplain d (List.mem_cons_of_mem _ hd)

theorem Substitution.Covers.head (h : s.Covers word rest) (hs : s.Regular) :
    word.head?.any isWord = true := by
  obtain ⟨c, words, hwords, hc⟩ := hs.exists_words
  cases h <;> simp [hwords, hc]

/-- A literal ends in the converted text where it ends in the text. -/
theorem afterLiteral?_pass (htable : ∀ s ∈ table, s.Regular) (hsolid : Solid table)
    (hquote : isQuote quote = true) (escaped : Bool) (before text : List Char) :
    afterLiteral? quote escaped (pass table before text) =
      (afterLiteral? quote escaped text).map (pass table []) := by
  induction before, text using pass_induction htable generalizing escaped with
  | nil before => cases escaped <;> rfl
  | keep before c rest hfits ih =>
    cases escaped with
    | true =>
      rw [pass_keep hfits, afterLiteral?, afterLiteral?]
      split
      · rfl
      · exact ih false
    | false =>
      by_cases hc : c = quote
      · subst hc
        rw [pass_separator htable (separates_of_isQuote hquote)]
        simp [afterLiteral?]
      · rw [pass_keep hfits, afterLiteral?, if_neg hc, afterLiteral?, if_neg hc]
        exact ih _
  | replace before word rest s hs hlength hfits ih =>
    have hcovers := Substitution.covers_of_length? hlength
    rw [pass_replace (hcovers.ne_nil (htable s hs)) hfits,
      afterLiteral?_append hquote escaped (htable s hs).target_head (hsolid s hs),
      afterLiteral?_append hquote escaped (hcovers.head (htable s hs))
        (hcovers.not_separates (htable s hs))]
    exact ih false

theorem afterOpened?_pass (htable : ∀ s ∈ table, s.Regular) (hsolid : Solid table) (c : Char)
    (before rest : List Char) :
    afterOpened? c (pass table before rest) = (afterOpened? c rest).map (pass table []) := by
  rw [afterOpened?, afterOpened?]
  split
  · rename_i hc
    exact afterLiteral?_pass htable hsolid hc false before rest
  · rfl

/-- A text without separators holds no literal and opens none. -/
theorem emptyLiterals_append (hword : ∀ c ∈ word, separates c = false) (rest : List Char) :
    emptyLiterals (word ++ rest) = word ++ emptyLiterals rest := by
  induction word with
  | nil => rfl
  | cons c word ih =>
    have hnone : afterOpened? c (word ++ rest) = none := by
      refine if_neg fun hc => ?_
      have hsep := hword c List.mem_cons_self
      rw [separates_of_isQuote hc] at hsep
      cases hsep
    rw [List.cons_append, emptyLiterals_cons, hnone, List.cons_append,
      ih fun d hd => hword d (List.mem_cons_of_mem _ hd)]

/-- Up to the first literal, a text is left as it is. -/
theorem exists_emptyLiterals (text : List Char) : ∃ first rest rest', text = first ++ rest ∧
    emptyLiterals text = first ++ rest' ∧ Separated rest ∧ Separated rest' := by
  induction text with
  | nil => exact ⟨[], [], [], rfl, rfl, .nil, .nil⟩
  | cons c text ih =>
    rw [emptyLiterals_cons]
    rcases hafter : afterOpened? c text with _ | after
    · obtain ⟨first, rest, rest', rfl, heq, hrest, hrest'⟩ := ih
      exact ⟨c :: first, rest, rest', rfl, by simp [heq], hrest, hrest'⟩
    · have hc : isQuote c = true := by
        by_contra hc
        rw [afterOpened?, if_neg hc] at hafter
        cases hafter
      exact ⟨[], c :: text, _, rfl, rfl, .cons (separates_of_isQuote hc) _,
        .cons (by decide) _⟩

theorem replacement?_emptyLiterals (htable : ∀ s ∈ table, s.Regular)
    (before word rest : List Char) :
    replacement? table before (word ++ emptyLiterals rest) =
      replacement? table before (word ++ rest) := by
  obtain ⟨first, last, last', rfl, heq, hlast, hlast'⟩ := exists_emptyLiterals rest
  rw [heq, ← List.append_assoc, ← List.append_assoc,
    replacement?_append_of_separated htable hlast, replacement?_append_of_separated htable hlast']

theorem length_lt_of_afterLiteral? {after : List Char}
    (h : afterLiteral? quote escaped text = some after) : after.length < text.length := by
  fun_induction afterLiteral? quote escaped text with
  | case1 => cases h
  | case2 => cases h
  | case3 c rest _ ih =>
    have := ih h
    rw [List.length_cons]
    omega
  | case4 rest =>
    cases h
    simp
  | case5 c rest _ ih =>
    have := ih h
    rw [List.length_cons]
    omega

theorem exists_of_afterOpened? {after : List Char} (h : afterOpened? c rest = some after) :
    separates c = true ∧ after.length < rest.length := by
  rw [afterOpened?, Option.ite_none_right_eq_some] at h
  exact ⟨separates_of_isQuote h.1, length_lt_of_afterLiteral? h.2⟩

/-- Literals may be emptied before or after a text is converted. -/
theorem emptyLiterals_pass (htable : ∀ s ∈ table, s.Regular) (hsolid : Solid table)
    (before text : List Char) :
    emptyLiterals (pass table before text) = pass table before (emptyLiterals text) := by
  -- A literal is passed over as a whole, so the induction is on the length of the text.
  induction hlength : text.length using Nat.strong_induction_on generalizing before text with
  | _ length ih =>
    subst hlength
    rcases text with _ | ⟨c, rest⟩
    · rfl
    rcases hafter : afterOpened? c rest with _ | after
    · rcases hfits : replacement? table before (c :: rest) with _ | ⟨n, target⟩
      · have hkeep : replacement? table before (c :: emptyLiterals rest) = none :=
          (replacement?_emptyLiterals htable before [c] rest).trans hfits
        rw [pass_keep hfits, emptyLiterals_cons, emptyLiterals_cons,
          afterOpened?_pass htable hsolid, hafter]
        simp only [Option.map_none]
        rw [pass_keep hkeep, ih rest.length (by simp) _ _ rfl]
      · obtain ⟨s, hs, hlength, rfl⟩ := exists_of_replacement? hfits
        obtain ⟨word, after, htext, rfl, hcovers⟩ := Substitution.exists_covers hlength
        have hne := hcovers.ne_nil (htable s hs)
        have hpos : 0 < word.length := List.length_pos_iff.2 hne
        rw [htext] at hfits ih ⊢
        have hfits' := (replacement?_emptyLiterals htable before word after).trans hfits
        rw [pass_replace hne hfits, emptyLiterals_append (hsolid s hs),
          emptyLiterals_append (hcovers.not_separates (htable s hs)), pass_replace hne hfits',
          ih after.length (by rw [List.length_append]; omega) _ _ rfl]
    · obtain ⟨hc, hshorter⟩ := exists_of_afterOpened? hafter
      have hmark : separates '"' = true := by decide
      rw [pass_separator htable hc, emptyLiterals_cons, emptyLiterals_cons,
        afterOpened?_pass htable hsolid, hafter]
      simp only [Option.map_some]
      rw [pass_separator htable hmark, pass_separator htable hmark,
        ih after.length (by rw [List.length_cons]; omega) _ _ rfl]

/-! ## Comments -/

theorem beforeComment_cons (c : Char) (rest : List Char) : beforeComment (c :: rest) =
    if ['/', '/'] <+: c :: rest then [] else c :: beforeComment rest := by
  split
  · rename_i hslashes
    obtain ⟨tail, htail⟩ := hslashes
    rw [← htail]
    rfl
  · rename_i hslashes
    refine beforeComment.eq_3 c rest fun tail hc hrest => hslashes ?_
    exact ⟨tail, by rw [hc, hrest]; rfl⟩

/-- A text without slashes holds no comment and begins none. -/
theorem beforeComment_append (hword : ∀ c ∈ word, separates c = false) (rest : List Char) :
    beforeComment (word ++ rest) = word ++ beforeComment rest := by
  induction word with
  | nil => rfl
  | cons c word ih =>
    have hc : c ≠ '/' := by
      rintro rfl
      exact absurd (hword '/' List.mem_cons_self) (by decide)
    rw [List.cons_append, beforeComment_cons, if_neg (by simp [List.cons_prefix_cons, hc.symm]),
      ih fun d hd => hword d (List.mem_cons_of_mem _ hd), List.cons_append]

/-- What is cut off begins with a separator. -/
theorem exists_beforeComment (text : List Char) :
    ∃ rest, text = beforeComment text ++ rest ∧ Separated rest := by
  induction text with
  | nil => exact ⟨[], rfl, .nil⟩
  | cons c text ih =>
    rw [beforeComment_cons]
    split
    · rename_i hslashes
      obtain ⟨rfl, -⟩ := List.cons_prefix_cons.1 hslashes
      exact ⟨'/' :: text, rfl, .cons (by decide) _⟩
    · obtain ⟨rest, heq, hrest⟩ := ih
      exact ⟨rest, by rw [List.cons_append, ← heq], hrest⟩

theorem replacement?_beforeComment (htable : ∀ s ∈ table, s.Regular)
    (before word rest : List Char) :
    replacement? table before (word ++ beforeComment rest) =
      replacement? table before (word ++ rest) := by
  obtain ⟨last, heq, hlast⟩ := exists_beforeComment rest
  conv_rhs => rw [heq, ← List.append_assoc]
  rw [replacement?_append_of_separated htable hlast]

/-- A comment may be cut off before or after a text is converted. -/
theorem beforeComment_pass (htable : ∀ s ∈ table, s.Regular) (hsolid : Solid table)
    (before text : List Char) :
    beforeComment (pass table before text) = pass table before (beforeComment text) := by
  have hslashes : ∀ c ∈ ['/', '/'], separates c = true := by decide
  induction before, text using pass_induction htable with
  | nil before => rfl
  | keep before c rest hfits ih =>
    have hsame : ['/', '/'] <+: pass table before (c :: rest) ↔ ['/', '/'] <+: c :: rest :=
      prefix_pass_iff_of_separates htable hslashes
    rw [pass_keep hfits] at hsame
    rw [pass_keep hfits, beforeComment_cons, beforeComment_cons]
    by_cases hcut : ['/', '/'] <+: c :: rest
    · rw [if_pos hcut, if_pos (hsame.2 hcut)]
      rfl
    · have hkeep : replacement? table before (c :: beforeComment rest) = none :=
        (replacement?_beforeComment htable before [c] rest).trans hfits
      rw [if_neg hcut, if_neg fun h => hcut (hsame.1 h), pass_keep hkeep, ih]
  | replace before word rest s hs hlength hfits ih =>
    have hcovers := Substitution.covers_of_length? hlength
    have hne := hcovers.ne_nil (htable s hs)
    have hfits' := (replacement?_beforeComment htable before word rest).trans hfits
    rw [pass_replace hne hfits, beforeComment_append (hsolid s hs),
      beforeComment_append (hcovers.not_separates (htable s hs)), pass_replace hne hfits', ih]

/-- The code of a converted text is the converted code of the text. -/
theorem code_pass (htable : ∀ s ∈ table, s.Regular) (hsolid : Solid table) (line : List Char) :
    code (pass table [] line) = pass table [] (code line) := by
  rw [code, emptyLiterals_pass htable hsolid, beforeComment_pass htable hsolid, code]

/-! ## Comment lines -/

/-- What a comment line begins with, blank characters apart. -/
def commentMarks : List (List Char) := [['/', '/'], ['/', '*'], ['*']]

theorem isCommentLine_iff {line : List Char} :
    isCommentLine line = true ↔ ∃ mark ∈ commentMarks, mark <+: line.dropWhile isBlank := by
  have hblank : ∀ mark ∈ commentMarks, ∀ c ∈ mark, isBlank c = false := by decide
  have htrim : ∀ mark ∈ commentMarks, (mark <+: trim line ↔ mark <+: line.dropWhile isBlank) :=
    fun mark hmark => Text.prefix_trimEnd_iff (hblank mark hmark)
  rw [← exists_congr fun mark => and_congr_right (htrim mark), isCommentLine]
  generalize trim line = text
  constructor
  · intro h
    split at h
    · exact ⟨['/', '/'], by decide, by simp⟩
    · exact ⟨['/', '*'], by decide, by simp⟩
    · exact ⟨['*'], by decide, by simp⟩
    · cases h
  · rintro ⟨mark, hmark, rest, rfl⟩
    simp only [commentMarks, List.mem_cons, List.not_mem_nil, or_false] at hmark
    rcases hmark with rfl | rfl | rfl <;> rfl

/-- Blank characters at the beginning are kept. -/
theorem dropWhile_pass (htable : ∀ s ∈ table, s.Regular) (before text : List Char) :
    ∃ before', (pass table before text).dropWhile isBlank =
      pass table before' (text.dropWhile isBlank) := by
  induction text generalizing before with
  | nil => exact ⟨before, rfl⟩
  | cons c rest ih =>
    by_cases hc : isBlank c = true
    · have hnone : replacement? table before (c :: rest) = none :=
        replacement?_eq_none_iff.2 fun s hs =>
          (htable s hs).length?_of_not_word (Text.isWord_of_isBlank hc)
      rw [pass_keep hnone, List.dropWhile_cons_of_pos hc, List.dropWhile_cons_of_pos hc]
      exact ih (c :: before)
    · refine ⟨before, ?_⟩
      rw [List.dropWhile_cons_of_neg hc]
      rcases pass_cons_cases htable before c rest with hkeep | ⟨-, d, tail, hd, hpass⟩
      · rw [hkeep, List.dropWhile_cons_of_neg hc]
      · have hblank : ¬ isBlank d = true := fun hblank => by
          rw [Text.isWord_of_isBlank hblank] at hd
          cases hd
        rw [hpass, List.dropWhile_cons_of_neg hblank]

/-- A line is a comment line when the converted line is one. -/
theorem isCommentLine_pass (htable : ∀ s ∈ table, s.Regular) (line : List Char) :
    isCommentLine (pass table [] line) = isCommentLine line := by
  have hmarks : ∀ mark ∈ commentMarks, ∀ c ∈ mark, separates c = true := by decide
  obtain ⟨before', hdrop⟩ := dropWhile_pass htable [] line
  rw [Bool.eq_iff_iff, isCommentLine_iff, isCommentLine_iff, hdrop]
  refine exists_congr fun mark => and_congr_right fun hmark => ?_
  exact prefix_pass_iff_of_separates htable (hmarks mark hmark)

end

end Courier.Script.Textual
