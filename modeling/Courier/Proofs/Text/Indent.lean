import Courier.Proofs.Text.Cut
import Courier.Text.Indent
import Mathlib.Tactic.Common

/-!
# Texts of blocks

`blockText` takes the common indentation off the lines of a block.  There are two main statements.

* `blockText_map_append` says that indenting every line by the same spaces and tabs does not change
  the text of a block.
* `blockText_splitOn` says which texts are the text of a block that holds their lines: those that
  neither begin nor end with a line feed, that hold nothing in their empty lines, and whose other
  lines have no indentation in common.
-/

namespace Courier.Text

variable {blank : List Char}

/-! ## Common indentation -/

theorem commonStart_append (blank a b : List Char) :
    commonStart (blank ++ a) (blank ++ b) = blank ++ commonStart a b := by
  induction blank with
  | nil => rfl
  | cons c blank ih => rw [List.cons_append, List.cons_append, commonStart, if_pos rfl, ih,
      List.cons_append]

theorem foldl_commonStart_nil (rest : List (List Char)) : rest.foldl commonStart [] = [] := by
  induction rest with
  | nil => rfl
  | cons next rest ih =>
    rw [List.foldl_cons, commonStart, ih]
    simp

/-- What stands before every text of a list stands before their common beginning. -/
theorem commonStartAll_map_append (blank : List Char) {texts : List (List Char)}
    (hne : texts ≠ []) :
    commonStartAll (texts.map (blank ++ ·)) = blank ++ commonStartAll texts := by
  have hfold : ∀ (rest : List (List Char)) (first : List Char),
      (rest.map (blank ++ ·)).foldl commonStart (blank ++ first) =
        blank ++ rest.foldl commonStart first := by
    intro rest
    induction rest with
    | nil =>
      intro first
      rfl
    | cons next rest ih =>
      intro first
      rw [List.map_cons, List.foldl_cons, commonStart_append, ih, List.foldl_cons]
  cases texts with
  | nil => exact absurd rfl hne
  | cons first rest => exact hfold rest first

theorem indentation_append (h : blank.all isIndent = true) (line : List Char) :
    indentation (blank ++ line) = blank ++ indentation line := by
  rw [indentation, indentation, List.takeWhile_append_of_pos (List.all_eq_true.1 h)]

theorem isVoid_append (h : blank.all isIndent = true) (line : List Char) :
    isVoid (blank ++ line) = isVoid line := by
  rw [isVoid, List.all_append, h, Bool.true_and, isVoid]

/-- The margin grows with the indentation, as long as a line carries text. -/
theorem margin_map_append (h : blank.all isIndent = true) {lines : List (List Char)}
    (hne : ∃ line ∈ lines, isVoid line = false) :
    margin (lines.map (blank ++ ·)) = blank ++ margin lines := by
  have hfilter : (lines.map (blank ++ ·)).filter (fun line => !isVoid line) =
      (lines.filter (fun line => !isVoid line)).map (blank ++ ·) := by
    rw [List.filter_map]
    congr 1
    refine List.filter_congr fun line _ => ?_
    rw [Function.comp_apply, isVoid_append h]
  have hmap : ((lines.filter (fun line => !isVoid line)).map (blank ++ ·)).map indentation =
      ((lines.filter (fun line => !isVoid line)).map indentation).map (blank ++ ·) := by
    rw [List.map_map, List.map_map]
    exact List.map_congr_left fun line _ => indentation_append h line
  obtain ⟨line, hline, hvoid⟩ := hne
  have hmem : line ∈ lines.filter (fun line => !isVoid line) :=
    List.mem_filter.2 ⟨hline, by rw [hvoid]; rfl⟩
  rw [margin, hfilter, hmap, commonStartAll_map_append, margin]
  exact fun hnil => List.not_mem_nil ((List.map_eq_nil_iff.1 hnil) ▸ hmem)

theorem dedent_map_append (h : blank.all isIndent = true) (lines : List (List Char)) :
    dedent (lines.map (blank ++ ·)) = dedent lines := by
  rw [dedent, dedent, List.map_map]
  refine List.map_congr_left fun line hline => ?_
  simp only [Function.comp_apply, isVoid_append h]
  cases hvoid : isVoid line with
  | true => rfl
  | false =>
    rw [margin_map_append h ⟨line, hline, hvoid⟩, List.length_append, ← List.drop_drop,
      List.drop_left]

/-- A block keeps its text when all its lines are indented by the same spaces and tabs. -/
theorem blockText_map_append (h : blank.all isIndent = true) {lines : List (List Char)}
    (hlines : ∀ line ∈ lines, '\n' ∉ line) :
    blockText (lines.map (blank ++ ·)) = blockText lines := by
  rcases lines with _ | ⟨first, rest⟩
  · rfl
  · have hblank : '\n' ∉ blank := by
      intro hmem
      have hindent := List.all_eq_true.1 h _ hmem
      exact absurd hindent (by decide)
    have hindented : ∀ line ∈ (first :: rest).map (blank ++ ·), '\n' ∉ line := by
      intro line hline
      obtain ⟨line, hmem, rfl⟩ := List.mem_map.1 hline
      rw [List.mem_append, not_or]
      exact ⟨hblank, hlines line hmem⟩
    rw [blockText, blockText, splitOn_joinWith (by simp) hindented,
      splitOn_joinWith (by simp) hlines, dedent_map_append h]

/-! ## Texts without common indentation -/

theorem dedent_eq_self {lines : List (List Char)}
    (hvoid : ∀ line ∈ lines, isVoid line = true → line = []) (hmargin : margin lines = []) :
    dedent lines = lines := by
  rw [dedent, hmargin]
  refine (List.map_congr_left fun line hline => ?_).trans (List.map_id lines)
  split_ifs with hv
  · rw [hvoid line hline hv]
    rfl
  · rfl

theorem trimChar_eq_self {c : Char} {s : List Char} (hfirst : s.head? ≠ some c)
    (hlast : s.getLast? ≠ some c) : trimChar c s = s := by
  have hdrop : ∀ {t : List Char}, t.head? ≠ some c → t.dropWhile (· == c) = t := by
    intro t ht
    cases t with
    | nil => rfl
    | cons d t =>
      refine List.dropWhile_cons_of_neg ?_
      simpa using ht
  rw [trimChar, dropEndWhile, hdrop hfirst, hdrop, List.reverse_reverse]
  rwa [List.head?_reverse]

/-- The lines of a text without line feeds at its ends and without common indentation have the text
as the text of their block. -/
theorem blockText_splitOn {s : List Char} (hfirst : s.head? ≠ some '\n')
    (hlast : s.getLast? ≠ some '\n')
    (hvoid : ∀ line ∈ splitOn '\n' s, isVoid line = true → line = [])
    (hmargin : margin (splitOn '\n' s) = []) : blockText (splitOn '\n' s) = s := by
  rw [blockText, joinWith_splitOn, dedent_eq_self hvoid hmargin, joinWith_splitOn,
    trimChar_eq_self hfirst hlast]

/-- Lines that begin with text are the text of their block as they are. -/
theorem blockText_of_flush {lines : List (List Char)} (hlines : ∀ line ∈ lines, '\n' ∉ line)
    (hflush : ∀ line ∈ lines, ∃ c, line.head? = some c ∧ isIndent c = false) :
    blockText lines = joinWith ['\n'] lines := by
  have hvoid : ∀ line ∈ lines, isVoid line = false := by
    intro line hline
    obtain ⟨c, hc, hindent⟩ := hflush line hline
    obtain ⟨rest, rfl⟩ := List.head?_eq_some_iff.1 hc
    rw [isVoid, List.all_cons, hindent, Bool.false_and]
  rcases lines with _ | ⟨first, rest⟩
  · rfl
  · have hmargin : margin (first :: rest) = [] := by
      obtain ⟨c, hc, hindent⟩ := hflush first List.mem_cons_self
      obtain ⟨tail, rfl⟩ := List.head?_eq_some_iff.1 hc
      have hfilter : ((c :: tail) :: rest).filter (fun line => !isVoid line) =
          (c :: tail) :: rest := by
        refine List.filter_eq_self.2 fun line hline => ?_
        rw [hvoid line hline]
        rfl
      have hindentation : indentation (c :: tail) = [] :=
        List.takeWhile_cons_of_neg (by simp [hindent])
      rw [margin, hfilter, List.map_cons, hindentation, commonStartAll, foldl_commonStart_nil]
    have hne : ∀ line ∈ first :: rest, line ≠ [] := by
      intro line hline hnil
      obtain ⟨c, hc, -⟩ := hflush line hline
      rw [hnil] at hc
      simp at hc
    rw [blockText, splitOn_joinWith (by simp) hlines,
      dedent_eq_self (fun line hline hv => by simp [hvoid line hline] at hv) hmargin]
    refine trimChar_eq_self (fun hfirst => ?_) fun hlast => ?_
    · rw [head?_joinWith (hne first List.mem_cons_self)] at hfirst
      exact hlines first List.mem_cons_self (List.mem_of_head? hfirst)
    · obtain ⟨line, hline, hend⟩ := exists_getLast?_joinWith ['\n'] (by simp) hne
      rw [hend] at hlast
      exact hlines line hline (List.mem_of_getLast? hlast)

end Courier.Text
