import Courier.Text.Lines
import Mathlib.Data.List.Basic
import Mathlib.Tactic.Common

/-!
# Cutting texts that were put together

`cutAt` and `splitOn` undo the joining of texts in which the separating character does not occur.
The first group is about one cut, the second about all cuts at once, and the third about the lines
of a text.
-/

namespace Courier.Text

/-- What holds of all characters of a text is decided along the text, not along the alphabet. -/
instance (priority := 2000) decidableAll (p : Char → Prop) [DecidablePred p] (s : List Char) :
    Decidable (∀ c ∈ s, p c) :=
  List.decidableBAll p s

/-! ## One cut -/

theorem cutAt_of_not_mem {sep : Char} {s : List Char} (h : sep ∉ s) : cutAt sep s = (s, none) := by
  induction s with
  | nil => rfl
  | cons c s ih =>
    rw [List.mem_cons, not_or] at h
    rw [cutAt, if_neg (Ne.symm h.1), ih h.2]

/-- A text is cut at the first separator. -/
theorem cutAt_append_cons {sep : Char} {before : List Char} (h : sep ∉ before)
    (after : List Char) : cutAt sep (before ++ sep :: after) = (before, some after) := by
  induction before with
  | nil => rw [List.nil_append, cutAt, if_pos rfl]
  | cons c before ih =>
    rw [List.mem_cons, not_or] at h
    rw [List.cons_append, cutAt, if_neg (Ne.symm h.1), ih h.2]

/-- What stands before the first separator has none, and the separator and the rest follow it. -/
theorem cutAt_eq_some {sep : Char} {s before after : List Char}
    (h : cutAt sep s = (before, some after)) : sep ∉ before ∧ s = before ++ sep :: after := by
  have happend := cutAt_append sep s
  rw [h] at happend
  refine ⟨?_, happend.symm⟩
  induction s generalizing before with
  | nil => simp [cutAt] at h
  | cons c s ih =>
    rw [cutAt] at h
    split at h
    · obtain ⟨rfl, -⟩ := Prod.mk.inj h
      simp
    · rename_i hc
      rcases hs : cutAt sep s with ⟨b, a⟩
      rw [hs] at h
      obtain ⟨rfl, rfl⟩ := Prod.mk.inj h
      have happend' : b ++ sep :: after = s := by simpa using happend
      rw [List.mem_cons, not_or]
      exact ⟨Ne.symm hc, ih hs happend'⟩

theorem cutAtD_append_cons {sep : Char} {before : List Char} (h : sep ∉ before)
    (after : List Char) : cutAtD sep (before ++ sep :: after) = (before, after) := by
  rw [cutAtD, cutAt_append_cons h]
  rfl

theorem cutAtLast?_of_not_mem {sep : Char} {s : List Char} (h : sep ∉ s) :
    cutAtLast? sep s = none := by
  rw [cutAtLast?, cutAt_of_not_mem (by simpa using h)]

theorem cutAtLast?_append_cons {sep : Char} {after : List Char} (h : sep ∉ after)
    (before : List Char) : cutAtLast? sep (before ++ sep :: after) = some (before, after) := by
  have hreverse : (before ++ sep :: after).reverse = after.reverse ++ sep :: before.reverse := by
    simp
  rw [cutAtLast?, hreverse, cutAt_append_cons (mt List.mem_reverse.1 h)]
  simp

/-- A cut behind a text without separator is a cut of what follows it. -/
theorem cutAt_append_of_not_mem {sep : Char} {s : List Char} (h : sep ∉ s) (t : List Char) :
    cutAt sep (s ++ t) = (s ++ (cutAt sep t).1, (cutAt sep t).2) := by
  induction s with
  | nil => rfl
  | cons c s ih =>
    rw [List.mem_cons, not_or] at h
    rw [List.cons_append, cutAt, if_neg (Ne.symm h.1), ih h.2]
    rfl

theorem cutAt_fst (sep : Char) (s : List Char) : (cutAt sep s).1 = s.takeWhile (· != sep) := by
  induction s with
  | nil => rfl
  | cons c s ih =>
    rw [cutAt]
    by_cases hc : c = sep
    · rw [if_pos hc, List.takeWhile_cons_of_neg (by simpa using hc)]
    · rw [if_neg hc, List.takeWhile_cons_of_pos (by simpa using hc), ← ih]

/-! ## Properties of the parts -/

/-- Whatever has the property has it on both sides of a separator. -/
def Cuts (P : List Char → Prop) (sep : Char) : Prop :=
  ∀ before after, P (before ++ sep :: after) → P before ∧ P after

variable {P : List Char → Prop} {sep : Char} {s : List Char}

theorem Cuts.cutAt (h : Cuts P sep) (hs : P s) :
    P (cutAt sep s).1 ∧ ∀ after, (cutAt sep s).2 = some after → P after := by
  have happend := cutAt_append sep s
  rcases hcut : Text.cutAt sep s with ⟨before, after | after⟩
  · rw [hcut] at happend
    obtain rfl : before = s := happend
    exact ⟨hs, fun _ hnone => by cases hnone⟩
  · obtain ⟨-, rfl⟩ := cutAt_eq_some hcut
    obtain ⟨hbefore, hafter⟩ := h before after hs
    refine ⟨hbefore, fun _ hsome => ?_⟩
    cases hsome
    exact hafter

theorem Cuts.cutAtD (h : Cuts P sep) (hnil : P []) (hs : P s) :
    P (cutAtD sep s).1 ∧ P (cutAtD sep s).2 := by
  obtain ⟨hbefore, hafter⟩ := h.cutAt hs
  refine ⟨hbefore, ?_⟩
  change P ((Text.cutAt sep s).2.getD [])
  cases hcut : (Text.cutAt sep s).2 with
  | none => exact hnil
  | some after => exact hafter after hcut

theorem Cuts.cutAtLast? (h : Cuts P sep) (hs : P s) {before after : List Char}
    (hcut : cutAtLast? sep s = some (before, after)) : P before ∧ P after := by
  rw [Text.cutAtLast?] at hcut
  rcases hreverse : Text.cutAt sep s.reverse with ⟨first, second | second⟩
  · rw [hreverse] at hcut
    cases hcut
  · rw [hreverse] at hcut
    cases hcut
    obtain ⟨-, heq⟩ := cutAt_eq_some hreverse
    refine h _ _ ?_
    rw [← List.reverse_reverse s, heq] at hs
    simpa using hs

/-! ## All cuts -/

theorem splitOn_of_not_mem {sep : Char} {s : List Char} (h : sep ∉ s) : splitOn sep s = [s] := by
  induction s with
  | nil => rfl
  | cons c s ih =>
    rw [List.mem_cons, not_or] at h
    rw [splitOn, if_neg (Ne.symm h.1), ih h.2]

theorem splitOn_append_cons {sep : Char} {piece : List Char} (h : sep ∉ piece)
    (rest : List Char) : splitOn sep (piece ++ sep :: rest) = piece :: splitOn sep rest := by
  induction piece with
  | nil => rw [List.nil_append, splitOn, if_pos rfl]
  | cons c piece ih =>
    rw [List.mem_cons, not_or] at h
    rw [List.cons_append, splitOn, if_neg (Ne.symm h.1), ih h.2]

/-- Cutting a text at one separator first changes none of its pieces. -/
theorem splitOn_append_sep (sep : Char) (before after : List Char) :
    splitOn sep (before ++ sep :: after) = splitOn sep before ++ splitOn sep after := by
  induction before with
  | nil => simp [splitOn]
  | cons c before ih =>
    rw [List.cons_append, splitOn, splitOn, ih]
    split
    · rfl
    · rcases hsplit : splitOn sep before with _ | ⟨piece, pieces⟩
      · exact absurd hsplit (splitOn_ne_nil sep before)
      · rfl

/-- Every piece of a text has what the text has. -/
theorem Cuts.splitOn (h : Cuts P sep) (hs : P s) : ∀ piece ∈ splitOn sep s, P piece := by
  induction hlength : s.length using Nat.strongRecOn generalizing s with
  | _ length ih =>
    subst hlength
    by_cases hmem : sep ∈ s
    · obtain ⟨before, after, rfl, hbefore⟩ := List.eq_append_cons_of_mem hmem
      obtain ⟨hfirst, hrest⟩ := h before after hs
      rw [splitOn_append_cons hbefore]
      refine List.forall_mem_cons.2 ⟨hfirst, ih after.length ?_ hrest rfl⟩
      rw [List.length_append, List.length_cons]
      omega
    · rw [splitOn_of_not_mem hmem]
      simpa using hs

/-- The last piece of a split text is the end of the text. -/
theorem exists_splitOn_eq_concat (sep : Char) (s : List Char) :
    ∃ pieces piece, splitOn sep s = pieces ++ [piece] ∧ piece <:+ s := by
  by_cases h : sep ∈ s
  · obtain ⟨after, before, hs, hafter⟩ := List.eq_append_cons_of_mem (List.mem_reverse.2 h)
    obtain rfl : s = before.reverse ++ sep :: after.reverse := by
      rw [← List.reverse_reverse s, hs]
      simp
    refine ⟨splitOn sep before.reverse, after.reverse, ?_, ?_⟩
    · rw [splitOn_append_sep, splitOn_of_not_mem (mt List.mem_reverse.1 hafter)]
    · exact ⟨before.reverse ++ [sep], by simp⟩
  · exact ⟨[], s, splitOn_of_not_mem h, List.suffix_refl s⟩

/-- A joined text has the pieces of all texts that it is joined from. -/
theorem splitOn_joinWith_eq_flatMap {sep : Char} {texts : List (List Char)} (hne : texts ≠ []) :
    splitOn sep (joinWith [sep] texts) = texts.flatMap (splitOn sep) := by
  induction texts with
  | nil => exact absurd rfl hne
  | cons text texts ih =>
    cases texts with
    | nil => rw [joinWith, List.flatMap_singleton]
    | cons next texts =>
      rw [joinWith, List.append_assoc, List.singleton_append, splitOn_append_sep,
        ih (List.cons_ne_nil _ _)]
      · rfl
      · simp

/-- Splitting undoes joining. -/
theorem splitOn_joinWith {sep : Char} {pieces : List (List Char)} (hne : pieces ≠ [])
    (h : ∀ piece ∈ pieces, sep ∉ piece) : splitOn sep (joinWith [sep] pieces) = pieces := by
  rw [splitOn_joinWith_eq_flatMap hne,
    List.flatMap_congr fun piece hpiece => splitOn_of_not_mem (h piece hpiece),
    List.flatMap_singleton']

/-- The characters of a joined text come from its pieces and from what is put between them. -/
theorem mem_joinWith {sep : List Char} {pieces : List (List Char)} {c : Char}
    (h : c ∈ joinWith sep pieces) : c ∈ sep ∨ ∃ piece ∈ pieces, c ∈ piece := by
  induction pieces with
  | nil => simp [joinWith] at h
  | cons piece pieces ih =>
    cases pieces with
    | nil => exact .inr ⟨piece, List.mem_cons_self, h⟩
    | cons next pieces =>
      rw [joinWith, List.append_assoc, List.mem_append, List.mem_append] at h
      · rcases h with h | h | h
        · exact .inr ⟨piece, List.mem_cons_self, h⟩
        · exact .inl h
        · rcases ih h with h | ⟨p, hp, hc⟩
          · exact .inl h
          · exact .inr ⟨p, List.mem_cons_of_mem _ hp, hc⟩
      · simp

theorem head?_joinWith {sep first : List Char} {rest : List (List Char)} (h : first ≠ []) :
    (joinWith sep (first :: rest)).head? = first.head? := by
  obtain ⟨c, first, rfl⟩ := List.exists_cons_of_ne_nil h
  cases rest with
  | nil => rfl
  | cons next rest =>
    rw [joinWith]
    · rfl
    · simp

theorem exists_getLast?_joinWith (sep : List Char) {pieces : List (List Char)} (hne : pieces ≠ [])
    (h : ∀ piece ∈ pieces, piece ≠ []) :
    ∃ piece ∈ pieces, (joinWith sep pieces).getLast? = piece.getLast? := by
  induction pieces with
  | nil => exact absurd rfl hne
  | cons piece pieces ih =>
    cases pieces with
    | nil => exact ⟨piece, List.mem_cons_self, rfl⟩
    | cons next pieces =>
      obtain ⟨last, hlast, heq⟩ := ih (by simp) fun p hp => h p (List.mem_cons_of_mem _ hp)
      refine ⟨last, List.mem_cons_of_mem _ hlast, ?_⟩
      have hsome := List.getLast?_eq_some_getLast (h last (List.mem_cons_of_mem _ hlast))
      rw [joinWith, List.getLast?_append, heq, hsome, Option.some_or]
      simp

/-- Every piece stands in the text that is joined from it. -/
theorem infix_joinWith (sep : List Char) {pieces : List (List Char)} {piece : List Char}
    (h : piece ∈ pieces) : piece <:+: joinWith sep pieces := by
  induction pieces with
  | nil => simp at h
  | cons first pieces ih =>
    cases pieces with
    | nil =>
      rw [List.mem_singleton.1 h]
      exact List.infix_refl _
    | cons next pieces =>
      rw [joinWith]
      · rcases List.mem_cons.1 h with rfl | h
        · exact ⟨[], sep ++ joinWith sep (next :: pieces), by simp⟩
        · exact (ih h).trans (List.suffix_append _ _).isInfix
      · simp

/-- Pieces that each begin with the separator are split off the text before them. -/
theorem splitOn_append_flatMap {sep : Char} {first : List Char} {pieces : List (List Char)}
    (hfirst : sep ∉ first) (h : ∀ piece ∈ pieces, sep ∉ piece) :
    splitOn sep (first ++ pieces.flatMap (sep :: ·)) = first :: pieces := by
  induction pieces generalizing first with
  | nil => rw [List.flatMap_nil, List.append_nil, splitOn_of_not_mem hfirst]
  | cons piece pieces ih =>
    rw [List.flatMap_cons, List.cons_append, splitOn_append_cons hfirst,
      ih (h piece List.mem_cons_self) fun p hp => h p (List.mem_cons_of_mem _ hp)]

/-- A piece of a split text does not hold the separator. -/
theorem not_mem_of_mem_splitOn {sep : Char} {s piece : List Char} (h : piece ∈ splitOn sep s) :
    sep ∉ piece := by
  induction s generalizing piece with
  | nil =>
    rw [splitOn, List.mem_singleton] at h
    simp [h]
  | cons c s ih =>
    rw [splitOn] at h
    split at h
    · rcases List.mem_cons.1 h with rfl | h
      · simp
      · exact ih h
    · rename_i hc
      rcases hs : splitOn sep s with _ | ⟨first, rest⟩
      · exact absurd hs (splitOn_ne_nil sep s)
      · rw [hs] at h ih
        rcases List.mem_cons.1 h with rfl | h
        · rw [List.mem_cons, not_or]
          exact ⟨Ne.symm hc, ih List.mem_cons_self⟩
        · exact ih (List.mem_cons_of_mem _ h)

/-- A piece of a split text is part of it. -/
theorem infix_of_mem_splitOn {sep : Char} {s piece : List Char} (h : piece ∈ splitOn sep s) :
    piece <:+: s := by
  have hinfix := infix_joinWith [sep] h
  rwa [joinWith_splitOn] at hinfix

/-! ## Lines -/

/-- A text without line breaks becomes part of the line that is being read. -/
theorem splitLinesFrom_append {piece : List Char} (h : ∀ c ∈ piece, isLineBreak c = false)
    (line : List Char) (begun : Bool) (rest : List Char) :
    splitLinesFrom line begun (piece ++ rest) =
      splitLinesFrom (piece.reverse ++ line) (begun || !piece.isEmpty) rest := by
  induction piece generalizing line begun with
  | nil => simp
  | cons c piece ih =>
    have hc : isLineBreak c = false := h c List.mem_cons_self
    have hcr : c ≠ '\r' := by
      rintro rfl
      exact absurd hc (by decide)
    have hstep : splitLinesFrom line begun (c :: (piece ++ rest)) =
        splitLinesFrom (c :: line) true (piece ++ rest) := by
      rw [splitLinesFrom]
      · simp [hc]
      · rintro _ rfl
        exact absurd rfl hcr
    rw [List.cons_append, hstep, ih fun x hx => h x (List.mem_cons_of_mem _ hx)]
    simp

theorem splitLinesFrom_newline (line : List Char) (begun : Bool) (rest : List Char) :
    splitLinesFrom line begun ('\n' :: rest) = line.reverse :: splitLinesFrom [] false rest := by
  rw [splitLinesFrom]
  · rw [if_pos (by decide)]
  · rintro _ h
    exact absurd h (by decide)

/-- The lines of a text are the ones it was joined from, when none of them holds a line break and
the last one is not empty. -/
theorem splitLines_joinWith {lines : List (List Char)}
    (h : ∀ line ∈ lines, ∀ c ∈ line, isLineBreak c = false)
    (hlast : ∀ line, lines.getLast? = some line → line ≠ []) :
    splitLines (joinWith ['\n'] lines) = lines := by
  rw [splitLines]
  induction lines with
  | nil => rfl
  | cons line lines ih =>
    have hline := h line List.mem_cons_self
    have hrest : ∀ l ∈ lines, ∀ c ∈ l, isLineBreak c = false :=
      fun l hl => h l (List.mem_cons_of_mem _ hl)
    cases lines with
    | nil =>
      have hne : line ≠ [] := hlast line rfl
      rw [joinWith, ← List.append_nil line, splitLinesFrom_append hline, splitLinesFrom]
      simp [hne]
    | cons next lines =>
      rw [joinWith, List.append_assoc, splitLinesFrom_append hline, List.singleton_append,
        splitLinesFrom_newline, ih hrest fun l hl => hlast l (by simpa using hl)]
      · simp
      · simp

end Courier.Text
