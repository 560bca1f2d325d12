import Courier.Proofs.Script.Occurrence
import Mathlib.Tactic.Common

/-!
# What stands around a replaced name

Before what is replaced no name and no access ends.  After it a name may go on in two cases only:
behind the parentheses of an empty call, and with a dollar sign behind a method of `bru` or a
property of `res`, since these have to end where a word ends and a dollar sign is no part of a word.
`Substitution.boundary` says this of one substitution.  `exists_occurrence_iff` tells whether a
substitution fits at a place of a line, and with it `replaced_delimited` says that the second case
is no exception: there, a dollar sign never keeps a name from being replaced.

The name in the declaration of a function is left alone when one space stands before it.  With any
other white space, or an asterisk, it is taken for a call.  `replaced_not_delimited` shows both on
one line.
-/

namespace Courier.Script.Textual

open Courier.Text (isBlank isWord isWord_of_isBlank)

/-- What stands between the word `function` and the name that it declares: white space, with an
asterisk in it or not. -/
def DeclaringGap (gap : List Char) : Prop :=
  gap ≠ [] ∧ ∃ first last, (gap = first ++ last ∨ gap = first ++ '*' :: last) ∧
    ∀ c ∈ first ++ last, isBlank c = true

section

variable {table : List Substitution} {s : Substitution} {before first gap rest word : List Char}
  {c : Char}

theorem joins_of_isBlank (h : isBlank c = true) : joins c = false := by
  have hdollar : c ≠ '$' := fun hc => absurd (hc ▸ h) (by decide)
  have hdot : c ≠ '.' := fun hc => absurd (hc ▸ h) (by decide)
  simp [joins, isWord_of_isBlank h, hdollar, hdot]

/-- A name begins where the text before it does not end in a name or a dot. -/
theorem beginsName_reverse_iff :
    beginsName first.reverse = true ↔
      ∀ c ∈ first.getLast?, continuesName c = false ∧ c ≠ '.' := by
  rw [← List.head?_reverse]
  cases first.reverse <;> simp [beginsName, joins_eq]

/-- Where a substitution fits at its words. -/
theorem Substitution.length?_words_isSome :
    (s.length? before (s.words ++ rest)).isSome = true ↔
      beginsName before = true ∧ ¬ (s.sparesDeclared = true ∧ declaringWord <+: before) ∧
        (s.ending.length? rest).isSome = true := by
  rw [Substitution.length?_append]
  split_ifs with hfits
  · simp [hfits]
  · simp only [Option.isSome_none, Bool.false_eq_true, false_iff]
    exact fun h => hfits ⟨h.1, h.2.1⟩

/-- A substitution has an occurrence at its words when it fits there. -/
theorem Compatible.exists_occurrence_iff (h : Compatible table) (hs : s ∈ table)
    (first rest : List Char) :
    (∃ o ∈ occurrences table (first ++ (s.words ++ rest)), o.start = first.length) ↔
      (s.length? first.reverse (s.words ++ rest)).isSome = true := by
  simp only [mem_occurrences_iff h.regular, Option.isSome_iff_exists]
  constructor
  · rintro ⟨o, ⟨before, after, htext, hstart, u, hu, hlength, -⟩, heq⟩
    obtain ⟨rfl, rfl⟩ := List.append_inj htext (heq.symm.trans hstart)
    obtain rfl := h.eq_of_prefix hu hs (Substitution.prefix_of_length? hlength)
      (List.prefix_append _ _)
    exact ⟨o.length, hlength⟩
  · rintro ⟨n, hlength⟩
    exact ⟨⟨first.length, n, s.target⟩, ⟨first, s.words ++ rest, rfl, rfl, s, hs, hlength, rfl⟩, rfl⟩

/-! ## After a name -/

theorem Substitution.Covers.words_prefix (h : s.Covers word rest) : s.words <+: word := by
  cases h with
  | words => exact List.prefix_refl _
  | call => exact List.prefix_append _ _

/-- What is replaced ends in a parenthesis, or is followed by no character that a name may hold
except for a dollar sign. -/
theorem Substitution.boundary (h : s.length? before (word ++ rest) = some word.length)
    (hc : c ∈ rest.head?) (hname : continuesName c = true) :
    (s.ending = .emptyCall ∧ word.getLast? = some ')') ∨
      (c = '$' ∧ (s.ending = .wordEnd ∨ s.ending = .notCalled)) := by
  obtain ⟨-, -, after, k, htext, hk, hlength⟩ := Substitution.length?_eq_some_iff.1 h
  rcases Ending.length?_eq_some hk with
    ⟨rfl, hend⟩ | ⟨hending, blanks, after, rfl, -, rfl⟩
  · obtain ⟨rfl, rfl⟩ := List.append_inj htext (by omega)
    obtain ⟨rest, rfl⟩ := List.head?_eq_some_iff.1 hc
    have hdollar : c = '$' := by
      simp only [endsWord, Bool.not_eq_true'] at hend
      simpa [continuesName, hend] using hname
    refine .inr ⟨hdollar, ?_⟩
    subst hdollar
    cases hending : s.ending with
    | wordEnd => exact .inl rfl
    | notCalled => exact .inr rfl
    | emptyCall => simp [hending, Ending.length?] at hk
    | called => simp [hending, Ending.length?, opensCall, (by decide : isBlank '$' = false)] at hk
  · have htext : word ++ rest = (s.words ++ '(' :: blanks ++ [')']) ++ after := by
      simpa using htext
    obtain ⟨hword, -⟩ := List.append_inj htext (by simp [hlength])
    exact .inl ⟨hending, by rw [hword, List.getLast?_concat]⟩

/-- With a dollar sign behind its words, a substitution fits exactly if the words may stand before
anything. -/
theorem Ending.length?_dollar_isSome (e : Ending) (rest : List Char) :
    (e.length? ('$' :: rest)).isSome = true ↔ e = .wordEnd ∨ e = .notCalled := by
  cases e <;>
    simp [Ending.length?, endsWord, opensCall, (by decide : isBlank '$' = false),
      (by decide : isWord '$' = false)]

/-! ## Declared names -/

theorem DeclaringGap.eq_or_isBlank (h : DeclaringGap gap) :
    ∀ d ∈ gap, d = '*' ∨ isBlank d = true := by
  obtain ⟨-, a, b, hgap, hblank⟩ := h
  intro d hd
  have hparts : d = '*' ∨ d ∈ a ++ b := by
    rcases hgap with rfl | rfl
    · exact .inr hd
    · rcases List.mem_append.1 hd with hd | hd
      · exact .inr (List.mem_append_left b hd)
      · exact (List.mem_cons.1 hd).imp_right (List.mem_append_right a)
  exact hparts.imp_right (hblank d)

/-- No name ends where the gap ends. -/
theorem DeclaringGap.beginsName (h : DeclaringGap gap) (before : List Char) :
    Textual.beginsName (gap.reverse ++ before) = true := by
  have hlast : joins (gap.getLast h.1) = false := by
    rcases h.eq_or_isBlank _ (List.getLast_mem h.1) with hstar | hblank
    · rw [hstar]
      decide
    · exact joins_of_isBlank hblank
  rw [← List.dropLast_concat_getLast h.1, List.reverse_append]
  simp [Textual.beginsName, hlast]

/-- A name is spared when one space stands before it. -/
theorem DeclaringGap.declaringWord_prefix_iff (h : DeclaringGap gap) (first : List Char) :
    declaringWord <+: (first ++ "function".toList ++ gap).reverse ↔ gap = [' '] := by
  have hword : declaringWord = ' ' :: "function".toList.reverse := by decide
  rw [List.append_assoc, List.reverse_append, List.reverse_append, hword]
  constructor
  · intro hprefix
    have hn : 'n' ∉ gap.reverse := fun hmem =>
      absurd (h.eq_or_isBlank 'n' (List.mem_reverse.1 hmem)) (by decide)
    obtain ⟨c, last, hreverse⟩ := List.exists_cons_of_ne_nil (List.reverse_ne_nil_iff.2 h.1)
    rw [hreverse] at hprefix hn
    -- A further character of the gap would stand in the place of the letter `n`.
    rcases last with _ | ⟨d, last⟩
    · obtain rfl : ' ' = c := (List.cons_prefix_cons.1 hprefix).1
      simpa using congrArg List.reverse hreverse
    · obtain ⟨-, hrest⟩ := List.cons_prefix_cons.1 hprefix
      obtain rfl : 'n' = d := (List.cons_prefix_cons.1 hrest).1
      simp at hn
  · rintro rfl
    simp

/-! ## Lines of scripts -/

theorem exists_called_substitution (role : Role) : ∀ pair ∈ bareCalls, ∃ s ∈ substitutionsFor role,
    s.words = pair.1.toList ∧ s.ending = .called ∧ s.sparesDeclared = true := by
  cases role <;> decide +kernel

theorem called_of_sparesDeclared (role : Role) :
    ∀ s ∈ substitutionsFor role, s.sparesDeclared = true → s.ending = .called := by
  cases role <;> decide +kernel

/-- Where a line is converted.

No name and no access ends before what is replaced, and none goes on after it except behind a
parenthesis and with a dollar sign.  A dollar sign behind its words keeps nothing but calls from
being replaced.  The name of a declared function is left alone when it does not look like a call, or
when one space stands between it and the word `function`. -/
theorem replaced_delimited (role : Role) :
    (∀ line, convertLine role line = replaceAll line (occurrences (substitutionsFor role) line) ∧
      ∀ o ∈ occurrences (substitutionsFor role) line, ∃ s ∈ substitutionsFor role,
        ∃ first piece rest, line = first ++ (piece ++ rest) ∧
          o = ⟨first.length, piece.length, s.target⟩ ∧ s.words <+: piece ∧
          (∀ c ∈ first.getLast?, continuesName c = false ∧ c ≠ '.') ∧
          ∀ c ∈ rest.head?, continuesName c = true →
            (s.ending = .emptyCall ∧ piece.getLast? = some ')') ∨
              (c = '$' ∧ (s.ending = .wordEnd ∨ s.ending = .notCalled))) ∧
    (∀ s ∈ substitutionsFor role, ∀ first rest,
      (∃ o ∈ occurrences (substitutionsFor role) (first ++ (s.words ++ '$' :: rest)),
        o.start = first.length) ↔
      (∀ c ∈ first.getLast?, continuesName c = false ∧ c ≠ '.') ∧
        (s.ending = .wordEnd ∨ s.ending = .notCalled)) ∧
    ∀ pair ∈ bareCalls, ∀ first gap rest, DeclaringGap gap →
      ((∃ o ∈ occurrences (substitutionsFor role)
          (first ++ "function".toList ++ gap ++ (pair.1.toList ++ rest)),
        o.start = (first ++ "function".toList ++ gap).length) ↔
      opensCall rest = true ∧ gap ≠ [' ']) := by
  have hcompatible := compatible_substitutionsFor role
  refine ⟨fun line => ⟨?_, fun o ho => ?_⟩, fun s hs first rest => ?_,
    fun pair hpair first gap rest hgap => ?_⟩
  · rw [hcompatible.replaceAll_occurrences, convertLine_eq_pass]
  · obtain ⟨first, text, rfl, hstart, s, hs, hlength, htarget⟩ :=
      (mem_occurrences_iff hcompatible.regular).1 ho
    obtain ⟨piece, rest, rfl, hpiece, hcovers⟩ := Substitution.exists_covers hlength
    rw [← hpiece] at hlength
    have hbegins := (Substitution.length?_eq_some_iff.1 hlength).1
    refine ⟨s, hs, first, piece, rest, rfl, ?_, hcovers.words_prefix,
      beginsName_reverse_iff.1 hbegins, fun c hc hname => Substitution.boundary hlength hc hname⟩
    obtain ⟨start, length, target⟩ := o
    obtain rfl : start = first.length := hstart
    obtain rfl : piece.length = length := hpiece
    rw [htarget]
  · rw [hcompatible.exists_occurrence_iff hs, Substitution.length?_words_isSome,
      beginsName_reverse_iff, Ending.length?_dollar_isSome]
    refine and_congr_right fun _ => and_iff_right_of_imp fun hending => ?_
    rintro ⟨hspares, -⟩
    rw [called_of_sparesDeclared role s hs hspares] at hending
    simp at hending
  · obtain ⟨s, hs, hwords, hending, hspares⟩ := exists_called_substitution role pair hpair
    have hbegins : beginsName (first ++ "function".toList ++ gap).reverse = true := by
      rw [List.reverse_append]
      exact hgap.beginsName _
    rw [← hwords, hcompatible.exists_occurrence_iff hs, Substitution.length?_words_isSome, hending,
      hgap.declaringWord_prefix_iff]
    simp only [hbegins, hspares, Ending.length?, true_and]
    split_ifs with hcall <;> simp [hcall]

/-- The name that an asterisk separates from the word `function` is replaced, and so is a part of a
name that goes on with a dollar sign. -/
theorem replaced_not_delimited :
    let line := "function* test(a) \x7b bru.setVar$(a); \x7d".toList
    (occurrences (substitutionsFor .test) line).map (fun o => (o.start, o.length)) =
        [(10, 4), (20, 10)] ∧
      line.take 10 = "function".toList ++ "* ".toList ∧ DeclaringGap "* ".toList ∧
      (line.drop (20 + 10)).head? = some '$' ∧ continuesName '$' = true ∧
      convertLine .test line =
        "function* pm.test(a) \x7b pm.environment.set$(a); \x7d".toList := by
  refine ⟨by decide +kernel, by decide, ⟨by decide, [], [' '], .inr rfl, by decide⟩, by decide,
    by decide, by decide +kernel⟩

end

end Courier.Script.Textual
