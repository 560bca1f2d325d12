import Courier.Proofs.Script.Occurrence
import Mathlib.Tactic.Common

/-!
# Converting a line again

A compatible table finds nothing in what it has made of a text (`Compatible.occurrencesFrom_pass`),
so that applying it again changes nothing.  The same holds of a replacement that stands in the text
from the beginning: nothing fits inside it, since it is unbroken, and nothing runs into it, since no
end of any words is like its beginning (`Substitution.Detached`).  `convertLine_convertLine` says
both of the lines of scripts.
-/

namespace Courier.Script.Textual

open Courier.Text (isBlank isWord isWord_of_isBlank)

section

variable {table : List Substitution} {s u : Substitution} {start : Nat}
  {before before' rest text : List Char}

/-! ## What a table leaves -/

/-- Nothing fits at a replacement or inside it. -/
theorem occurrencesFrom_target (htable : ∀ u ∈ table, u.Regular ∧ s.Unlike u) (hs : s.Regular) :
    occurrencesFrom table start before (s.target ++ rest) =
      occurrencesFrom table (start + s.target.length) (s.target.reverse ++ before) rest := by
  have hnone : replacement? table before (s.target ++ rest) = none :=
    replacement?_eq_none_iff.2 fun u hu => (htable u hu).1.length?_target hs (htable u hu).2
  have hunbroken := hs.target_unbroken
  obtain ⟨c, target, htarget, -⟩ := hs.exists_target
  rw [htarget] at hnone hunbroken ⊢
  rw [List.cons_append] at hnone ⊢
  rw [occurrencesFrom_keep hnone,
    occurrencesFrom_unbroken (fun u hu => (htable u hu).1) hunbroken]
  simp [Nat.add_assoc, Nat.add_comm 1]

/-- A compatible table finds nothing in what it has made of a text. -/
theorem Compatible.occurrencesFrom_pass (h : Compatible table) (start : Nat)
    (hbehind : Behind before before' text) :
    occurrencesFrom table start before' (pass table before text) = [] := by
  induction before, text using pass_induction h.regular generalizing before' start with
  | nil before => rfl
  | keep before c rest hfits ih =>
    have hnone := (replacement?_pass h.regular h.regular hbehind).trans hfits
    rw [pass_keep hfits, occurrencesFrom_keep hnone]
    exact ih _ (hbehind.cons c rest)
  | replace before word rest s hs hlength hfits ih =>
    have hcovers := Substitution.covers_of_length? hlength
    have hsame : ∀ u ∈ table, u.Regular ∧ s.Unlike u := fun u hu =>
      ⟨h.regular u hu, h.unlike s hs u hu⟩
    rw [pass_replace (hcovers.ne_nil (h.regular s hs)) hfits,
      occurrencesFrom_target hsame (h.regular s hs)]
    exact ih _ (hcovers.behind (h.regular s hs) before before')

/-- Where there are no occurrences, a table changes nothing. -/
theorem Compatible.pass_eq_self (h : Compatible table) {line : List Char}
    (hnone : occurrences table line = []) : pass table [] line = line := by
  rw [← h.replaceAll_occurrences, hnone]
  rfl

/-! ## Replacements in the text -/

/-- No end of the words is like the beginning of the other substitution's replacement. -/
def Substitution.Detached (u s : Substitution) : Prop :=
  ∀ part ∈ u.words.tails, part ≠ [] → ¬ part <+: s.target ∧ ¬ s.target <+: part

instance : DecidableRel Substitution.Detached := fun u s => inferInstanceAs (Decidable
  (∀ part ∈ u.words.tails, part ≠ [] → ¬ part <+: s.target ∧ ¬ s.target <+: part))

/-- What a substitution covers does not end inside a replacement. -/
theorem Substitution.Covers.not_into_target {word first last after : List Char}
    (h : u.Covers word after) (hs : s.Regular) (hdetached : u.Detached s)
    (hword : word = first ++ last) (hlast : last ≠ []) : last ++ after ≠ s.target ++ rest := by
  intro heq
  -- A part of the words would begin like the replacement, or the other way round.
  have hwords : ∀ part tail, part <:+ u.words → part ≠ [] → part ++ tail ≠ s.target ++ rest := by
    intro part tail hpart hne htext
    obtain ⟨hbegins, hbegins'⟩ := hdetached part ((List.mem_tails _ _).2 hpart) hne
    rcases List.prefix_or_prefix_of_prefix (List.prefix_append part tail)
      (htext ▸ List.prefix_append s.target rest) with hboth | hboth
    · exact hbegins hboth
    · exact hbegins' hboth
  obtain ⟨c, target, htarget, hc⟩ := hs.exists_target
  cases h with
  | words hend => exact hwords last after ⟨first, hword.symm⟩ hlast heq
  | @call blanks _ hending hblanks =>
    rcases List.append_eq_append_iff.1 hword.symm with ⟨part, hfirst, hrest⟩ | ⟨part, hfirst, hrest⟩
    · rcases eq_or_ne part [] with rfl | hne
      · -- What is left begins with the parenthesis.
        rw [htarget, hrest] at heq
        simp only [List.nil_append, List.cons_append, List.cons.injEq] at heq
        rw [← heq.1] at hc
        revert hc
        decide
      · rw [hrest, List.append_assoc] at heq
        exact hwords part _ ⟨first, hfirst.symm⟩ hne heq
    · -- What is left consists of parentheses and blank characters.
      obtain ⟨d, last, rfl⟩ := List.exists_cons_of_ne_nil hlast
      have hd : isWord d = false := by
        have hmem : d ∈ '(' :: (blanks ++ [')']) := by
          rw [hrest]
          simp
        rcases List.mem_cons.1 hmem with rfl | hmem
        · decide
        rcases List.mem_append.1 hmem with hmem | hmem
        · exact isWord_of_isBlank (hblanks d hmem)
        · rw [List.mem_singleton.1 hmem]
          decide
      rw [htarget, List.cons_append, List.cons_append] at heq
      rw [(List.cons.inj heq).1, hc] at hd
      cases hd

/-- Nothing fits inside a replacement. -/
theorem Substitution.Regular.length?_inside {part tail : List Char} (hu : u.Regular)
    (hs : s.Regular) (hunlike : s.Unlike u) (htarget : s.target = part ++ tail) (htail : tail ≠ []) :
    u.length? (part.reverse ++ before) (tail ++ rest) = none := by
  rcases List.eq_nil_or_concat part with rfl | ⟨part, c, rfl⟩
  · rw [List.nil_append] at htarget
    rw [← htarget]
    exact hu.length?_target hs hunlike
  · obtain ⟨d, tail, rfl⟩ := List.exists_cons_of_ne_nil htail
    have hunbroken : Unbroken (c :: d :: tail) :=
      hs.target_unbroken.suffix ⟨part, by rw [htarget]; simp⟩
    have hregular : ∀ v ∈ [u], v.Regular := by simpa using hu
    have hnone : replacement? [u] (c :: (part.reverse ++ before)) (d :: (tail ++ rest)) = none :=
      replacement?_of_unbroken hregular hunbroken
    simpa using replacement?_eq_none_iff.1 hnone u List.mem_cons_self

/-- No occurrence overlaps a replacement that stands in the text. -/
theorem Compatible.occurrences_target (h : Compatible table) (hs : s ∈ table)
    (hdetached : ∀ u ∈ table, u.Detached s) {first : List Char} {o : Occurrence}
    (ho : o ∈ occurrences table (first ++ s.target ++ rest)) :
    o.start + o.length ≤ first.length ∨ first.length + s.target.length ≤ o.start := by
  obtain ⟨before, after, htext, hstart, u, hu, hfits, -⟩ := (mem_occurrences_iff h.regular).1 ho
  have hregular := h.regular s hs
  rw [List.append_assoc] at htext
  rcases List.append_eq_append_iff.1 htext with ⟨part, rfl, hafter⟩ | ⟨part, rfl, hafter⟩
  · -- The occurrence begins at the replacement, inside it or after it.
    refine .inr ?_
    rcases List.append_eq_append_iff.1 hafter with ⟨gap, rfl, -⟩ | ⟨tail, htarget, rfl⟩
    · simp only [hstart, List.length_append]
      omega
    · rcases eq_or_ne tail [] with rfl | hne
      · simp [hstart, htarget]
      · rw [List.reverse_append,
          (h.regular u hu).length?_inside hregular (h.unlike s hs u hu) htarget hne] at hfits
        cases hfits
  · -- The occurrence begins before the replacement.
    refine .inl ?_
    obtain ⟨word, after', hword, hlength, hcovers⟩ := Substitution.exists_covers hfits
    rw [hstart, ← hlength, List.length_append]
    rcases List.append_eq_append_iff.1 (hafter.symm.trans hword) with
      ⟨last, hsplit, hlast⟩ | ⟨gap, rfl, -⟩
    · rcases eq_or_ne last [] with rfl | hne
      · simp [hsplit]
      · exact absurd hlast.symm
          (hcovers.not_into_target hregular (hdetached u hu) hsplit hne)
    · simp only [List.length_append]
      omega

/-! ## Lines of scripts -/

theorem detached_substitutions : ∀ s ∈ substitutions, ∀ u ∈ substitutions, u.Detached s := by
  decide +kernel

/-- Converting a line again changes nothing: no substitution fits in what has been converted, and
none touches a replacement that stands in a line as it is written. -/
theorem convertLine_convertLine (role : Role) (line : List Char) :
    convertLine role (convertLine role line) = convertLine role line ∧
      occurrences (substitutionsFor role) (convertLine role line) = [] ∧
      ∀ s ∈ substitutionsFor role, ∀ first rest,
        ∀ o ∈ occurrences (substitutionsFor role) (first ++ s.target ++ rest),
          o.start + o.length ≤ first.length ∨ first.length + s.target.length ≤ o.start := by
  have hcompatible := compatible_substitutionsFor role
  have hnone : occurrences (substitutionsFor role) (convertLine role line) = [] := by
    rw [convertLine_eq_pass]
    exact hcompatible.occurrencesFrom_pass 0 (.refl [] line)
  refine ⟨?_, hnone, fun s hs first rest o ho => ?_⟩
  · rw [convertLine_eq_pass role (convertLine role line), hcompatible.pass_eq_self hnone]
  · refine hcompatible.occurrences_target hs (fun u hu => ?_) ho
    exact detached_substitutions s (List.mem_of_mem_filter hs) u (List.mem_of_mem_filter hu)

example : convertLine .test "pm.test(pm.response.json().id)".toList =
    "pm.test(pm.response.json().id)".toList := by
  decide +kernel

end

end Courier.Script.Textual
