import Courier.Proofs.Text.Cut
import Courier.Text.Blank
import Courier.Text.Lines
import Mathlib.Tactic.Common

/-!
# Trimmed texts

A text is trimmed when no blank character stands at its two ends, which is to say that `trim`
leaves it as it is.  `trim_eq_self_iff` relates the two, and the lemmas after it say what trimming
does to a text that is put together from blank and trimmed parts.
-/

namespace Courier.Text

/-- Line breaks are blank. -/
theorem isLineBreak_of_not_isBlank {c : Char} (h : isBlank c = false) : isLineBreak c = false := by
  simp only [isBlank, isLineBreak, Bool.or_eq_false_iff, Bool.and_eq_false_iff,
    decide_eq_false_iff_not, beq_eq_false_iff_ne] at h ⊢
  omega

/-- No character at the given end of a text is blank. -/
theorem head?_dropWhile_isBlank {s : List Char} {c : Char}
    (h : (s.dropWhile isBlank).head? = some c) : isBlank c = false := by
  have hnot := List.head?_dropWhile_not isBlank s
  rw [h] at hnot
  simpa using hnot

theorem trimStart_of_head {s : List Char} (h : ∀ c, s.head? = some c → isBlank c = false) :
    trimStart s = s := by
  cases s with
  | nil => rfl
  | cons c s => rw [trimStart, List.dropWhile_cons_of_neg (by simp [h c rfl])]

theorem trimEnd_of_getLast {s : List Char} (h : ∀ c, s.getLast? = some c → isBlank c = false) :
    trimEnd s = s := by
  have hrev : s.reverse.dropWhile isBlank = s.reverse :=
    trimStart_of_head fun c hc => h c (by rwa [List.head?_reverse] at hc)
  rw [trimEnd, dropEndWhile, hrev, List.reverse_reverse]

theorem length_trimEnd_le (s : List Char) : (trimEnd s).length ≤ s.length := by
  rw [trimEnd, dropEndWhile, List.length_reverse]
  have hle := (List.dropWhile_sublist isBlank (l := s.reverse)).length_le
  rwa [List.length_reverse] at hle

theorem trimStart_append_of_blank {blank : List Char} (h : ∀ c ∈ blank, isBlank c = true)
    (s : List Char) : trimStart (blank ++ s) = trimStart s := by
  induction blank with
  | nil => rfl
  | cons c blank ih =>
    have hc : isBlank c = true := h c List.mem_cons_self
    rw [List.cons_append, trimStart, List.dropWhile_cons_of_pos hc]
    exact ih fun d hd => h d (List.mem_cons_of_mem _ hd)

/-- Trimming starts after blank characters. -/
theorem trim_append_of_blank {blank : List Char} (h : ∀ c ∈ blank, isBlank c = true)
    (s : List Char) : trim (blank ++ s) = trim s := by
  rw [trim, trim, trimStart_append_of_blank h]

/-- A text is trimmed when its first and its last character are not blank. -/
theorem trim_eq_self {s : List Char} (hhead : ∀ c, s.head? = some c → isBlank c = false)
    (hlast : ∀ c, s.getLast? = some c → isBlank c = false) : trim s = s := by
  rw [trim, trimStart_of_head hhead, trimEnd_of_getLast hlast]

/-- The first character of a trimmed text is not blank. -/
theorem isBlank_head_of_trim {s : List Char} {c : Char} (h : trim s = s)
    (hc : s.head? = some c) : isBlank c = false := by
  cases s with
  | nil => simp at hc
  | cons d s =>
    obtain rfl : d = c := by simpa using hc
    by_contra hblank
    have hstart : trim (d :: s) = trim s :=
      trim_append_of_blank (by simpa using hblank : ∀ c ∈ [d], isBlank c = true) s
    have hle : (trim s).length ≤ s.length :=
      Nat.le_trans (length_trimEnd_le _) (List.dropWhile_sublist isBlank).length_le
    rw [← hstart, h, List.length_cons] at hle
    omega

/-- The last character of a trimmed text is not blank. -/
theorem isBlank_getLast_of_trim {s : List Char} {c : Char} (h : trim s = s)
    (hc : s.getLast? = some c) : isBlank c = false := by
  rw [← h, trim, trimEnd, dropEndWhile, List.getLast?_reverse] at hc
  exact head?_dropWhile_isBlank hc

theorem trim_eq_self_iff {s : List Char} :
    trim s = s ↔ (∀ c, s.head? = some c → isBlank c = false) ∧
      ∀ c, s.getLast? = some c → isBlank c = false := by
  constructor
  · intro h
    exact ⟨fun c => isBlank_head_of_trim h, fun c => isBlank_getLast_of_trim h⟩
  · rintro ⟨hhead, hlast⟩
    exact trim_eq_self hhead hlast

theorem trimEnd_append_of_blank {blank : List Char} (h : ∀ c ∈ blank, isBlank c = true)
    (s : List Char) : trimEnd (s ++ blank) = trimEnd s := by
  have hrev : ∀ c ∈ blank.reverse, isBlank c = true := fun c hc => h c (List.mem_reverse.1 hc)
  have hstart := trimStart_append_of_blank hrev s.reverse
  rw [trimStart, trimStart] at hstart
  rw [trimEnd, dropEndWhile, List.reverse_append, hstart, trimEnd, dropEndWhile]

/-- What is not blank begins a text when it begins the text without the blank characters at its
end. -/
theorem prefix_trimEnd_iff {first s : List Char} (h : ∀ c ∈ first, isBlank c = false) :
    first <+: trimEnd s ↔ first <+: s := by
  have hkeep : first.reverse.dropWhile isBlank = first.reverse :=
    trimStart_of_head fun c hc => h c (List.mem_reverse.1 (List.mem_of_mem_head? hc))
  constructor
  · refine fun hfirst => hfirst.trans ?_
    rw [trimEnd, dropEndWhile, ← List.reverse_suffix, List.reverse_reverse]
    exact List.dropWhile_suffix isBlank
  · rintro ⟨rest, rfl⟩
    rw [trimEnd, dropEndWhile, List.reverse_append, List.dropWhile_append, hkeep]
    split
    · simp
    · simp

/-- Trimming takes blank characters off the end of a trimmed text. -/
theorem trim_append_blank {s blank : List Char} (hs : trim s = s)
    (h : ∀ c ∈ blank, isBlank c = true) : trim (s ++ blank) = s := by
  cases s with
  | nil =>
    have hblank := trim_append_of_blank h []
    rwa [List.append_nil] at hblank
  | cons c s =>
    have hhead : ∀ d, ((c :: s) ++ blank).head? = some d → isBlank d = false :=
      fun d hd => isBlank_head_of_trim hs hd
    rw [trim, trimStart_of_head hhead, trimEnd_append_of_blank h,
      trimEnd_of_getLast fun d hd => isBlank_getLast_of_trim hs hd]

/-- Trimmed texts with anything between them are trimmed. -/
theorem trim_append_append {a b : List Char} (ha : trim a = a) (hb : trim b = b) (hane : a ≠ [])
    (hbne : b ≠ []) (middle : List Char) : trim (a ++ middle ++ b) = a ++ middle ++ b := by
  refine trim_eq_self (fun c hc => isBlank_head_of_trim ha ?_)
    fun c hc => isBlank_getLast_of_trim hb ?_
  · cases a with
    | nil => exact absurd rfl hane
    | cons d a => exact hc
  · rwa [List.getLast?_append, List.getLast?_eq_some_getLast hbne, Option.some_or,
      ← List.getLast?_eq_some_getLast hbne] at hc

end Courier.Text
