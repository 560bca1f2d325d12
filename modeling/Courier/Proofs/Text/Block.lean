import Courier.Proofs.Text.Indent
import Courier.Proofs.Text.Trim
import Mathlib.Data.List.DropRight
import Mathlib.Data.List.Forall2
import Mathlib.Tactic.Common

/-!
# Lines of a block

`blockText` takes off the lines of a block what they share as indentation, and leaves the rest of
every line as it is.  This module says so line by line.

* `isMargin_margin`: the margin, which is computed by a fold, is the longest text of spaces and tabs
  that all lines with text begin with (`IsMargin`).
* `IsCore.blockText_eq`: without the lines at both ends that hold spaces and tabs only (`IsCore`),
  every line of the block gives one line of its text, and `unindented_of_mem` says which.
* `blockText_takes_margin` adds that neither a common indentation nor a second pass changes the text
  of a block.
-/

namespace Courier.Text

variable {lines : List (List Char)}

/-! ## The margin -/

/-- A text of spaces and tabs. -/
def OnlyIndent (s : List Char) : Prop := ∀ c ∈ s, c = ' ' ∨ c = '\t'

instance : DecidablePred OnlyIndent := fun s =>
  inferInstanceAs (Decidable (∀ c ∈ s, c = ' ' ∨ c = '\t'))

theorem isIndent_iff {c : Char} : isIndent c = true ↔ c = ' ' ∨ c = '\t' := by
  simp [isIndent]

theorem isVoid_iff {line : List Char} : isVoid line = true ↔ OnlyIndent line := by
  rw [isVoid, List.all_eq_true]
  exact forall₂_congr fun _ _ => isIndent_iff

theorem isVoid_eq_false_iff {line : List Char} : isVoid line = false ↔ ¬ OnlyIndent line := by
  rw [← isVoid_iff, Bool.not_eq_true]

/-- The longest text of spaces and tabs that all lines with text begin with. -/
structure IsMargin (lines : List (List Char)) (shared : List Char) : Prop where
  onlyIndent : OnlyIndent shared
  common : ∀ line ∈ lines, ¬ OnlyIndent line → shared <+: line
  longest : (∃ line ∈ lines, ¬ OnlyIndent line) → ∀ other, OnlyIndent other →
    (∀ line ∈ lines, ¬ OnlyIndent line → other <+: line) → other <+: shared

/-- What begins two texts begins their common beginning. -/
theorem prefix_commonStart_iff {p a b : List Char} :
    p <+: commonStart a b ↔ p <+: a ∧ p <+: b := by
  induction p generalizing a b with
  | nil => simp
  | cons c p ih =>
    cases a with
    | nil => simp [commonStart]
    | cons d a =>
      cases b with
      | nil => simp [commonStart]
      | cons e b =>
        rw [commonStart]
        by_cases hde : d = e
        · subst hde
          rw [if_pos rfl, List.cons_prefix_cons, List.cons_prefix_cons, List.cons_prefix_cons, ih]
          tauto
        · rw [if_neg hde, List.prefix_nil, List.cons_prefix_cons, List.cons_prefix_cons]
          constructor
          · intro h
            cases h
          · intro h
            exact absurd (h.1.1.symm.trans h.2.1) hde

theorem prefix_commonStartAll_iff {p first : List Char} {rest : List (List Char)} :
    p <+: commonStartAll (first :: rest) ↔ ∀ text ∈ first :: rest, p <+: text := by
  rw [commonStartAll]
  induction rest generalizing first with
  | nil => simp
  | cons next rest ih =>
    rw [List.foldl_cons, ih, List.forall_mem_cons, List.forall_mem_cons, List.forall_mem_cons,
      prefix_commonStart_iff, and_assoc]

theorem prefix_indentation_iff {p line : List Char} :
    p <+: indentation line ↔ p <+: line ∧ OnlyIndent p := by
  unfold indentation
  constructor
  · intro h
    refine ⟨h.trans (List.takeWhile_prefix isIndent), ?_⟩
    intro c hc
    exact isIndent_iff.1 (List.mem_takeWhile_imp (h.subset hc))
  · intro h
    obtain ⟨⟨rest, rfl⟩, hp⟩ := h
    rw [List.takeWhile_append_of_pos fun c hc => isIndent_iff.2 (hp c hc)]
    exact List.prefix_append _ _

/-- Where a line carries text, the margin is the greatest common beginning of spaces and tabs. -/
theorem prefix_margin_iff {p : List Char} (htext : ∃ line ∈ lines, ¬ OnlyIndent line) :
    p <+: margin lines ↔ OnlyIndent p ∧ ∀ line ∈ lines, ¬ OnlyIndent line → p <+: line := by
  have hmem : ∀ line, line ∈ lines.filter (fun line => !isVoid line) ↔
      line ∈ lines ∧ ¬ OnlyIndent line := by
    intro line
    rw [List.mem_filter, Bool.not_eq_true', isVoid_eq_false_iff]
  have hall : (∀ line ∈ lines.filter (fun line => !isVoid line), p <+: indentation line) ↔
      OnlyIndent p ∧ ∀ line ∈ lines, ¬ OnlyIndent line → p <+: line := by
    constructor
    · intro h
      obtain ⟨line, hline, hvoid⟩ := htext
      refine ⟨(prefix_indentation_iff.1 (h line ((hmem line).2 ⟨hline, hvoid⟩))).2, ?_⟩
      intro other hother hother'
      exact (prefix_indentation_iff.1 (h other ((hmem other).2 ⟨hother, hother'⟩))).1
    · intro h line hline
      obtain ⟨hin, hvoid⟩ := (hmem line).1 hline
      exact prefix_indentation_iff.2 ⟨h.2 line hin hvoid, h.1⟩
  rw [← hall, margin]
  rcases htexts : lines.filter (fun line => !isVoid line) with _ | ⟨first, rest⟩
  · obtain ⟨line, hline⟩ := htext
    have hnone := (hmem line).2 hline
    rw [htexts] at hnone
    cases hnone
  · rw [List.map_cons, prefix_commonStartAll_iff, ← List.map_cons, List.forall_mem_map]

theorem margin_of_onlyIndent (h : ∀ line ∈ lines, OnlyIndent line) : margin lines = [] := by
  have hfilter : lines.filter (fun line => !isVoid line) = [] := by
    refine List.filter_eq_nil_iff.2 fun line hline => ?_
    simp [isVoid_iff.2 (h line hline)]
  rw [margin, hfilter]
  rfl

theorem isMargin_margin (lines : List (List Char)) : IsMargin lines (margin lines) := by
  by_cases htext : ∃ line ∈ lines, ¬ OnlyIndent line
  · obtain ⟨hindent, hcommon⟩ := (prefix_margin_iff htext).1 (List.prefix_refl (margin lines))
    exact ⟨hindent, hcommon, fun _ other hother hshared =>
      (prefix_margin_iff htext).2 ⟨hother, hshared⟩⟩
  · have hvoid : ∀ line ∈ lines, OnlyIndent line := by
      intro line hline
      by_contra hnot
      exact htext ⟨line, hline, hnot⟩
    rw [margin_of_onlyIndent hvoid]
    refine ⟨?_, fun line hline hnot => absurd (hvoid line hline) hnot, fun h => absurd h htext⟩
    intro c hc
    cases hc

/-! ## Lines without the margin -/

/-- What becomes of a line: nothing is left of spaces and tabs only, and from any other line the
shared indentation is taken off. -/
structure Unindented (shared line out : List Char) : Prop where
  void : OnlyIndent line → out = []
  text : ¬ OnlyIndent line → line = shared ++ out

/-- A line without its first characters, or nothing when it holds spaces and tabs only. -/
def unindent (width : Nat) (line : List Char) : List Char :=
  if isVoid line then [] else line.drop width

theorem dedent_eq_map (lines : List (List Char)) :
    dedent lines = lines.map (unindent (margin lines).length) := rfl

theorem unindented_of_mem {line : List Char} (hline : line ∈ lines) :
    Unindented (margin lines) line (unindent (margin lines).length line) := by
  unfold unindent
  constructor
  · intro hvoid
    rw [if_pos (isVoid_iff.2 hvoid)]
  · intro htext
    obtain ⟨rest, hrest⟩ := (isMargin_margin lines).common line hline htext
    rw [if_neg (by rwa [isVoid_iff]), ← hrest, List.drop_left]

theorem Unindented.onlyIndent_iff {shared line out : List Char} (hshared : OnlyIndent shared)
    (h : Unindented shared line out) : OnlyIndent line ↔ OnlyIndent out := by
  constructor
  · intro hvoid
    rw [h.void hvoid]
    intro c hc
    cases hc
  · intro hout
    by_contra htext
    refine htext ?_
    rw [h.text htext]
    intro c hc
    rcases List.mem_append.1 hc with hc | hc
    · exact hshared c hc
    · exact hout c hc

/-- What is left of a line is part of it. -/
theorem Unindented.subset {shared line out : List Char} (h : Unindented shared line out) :
    out ⊆ line := by
  by_cases hvoid : OnlyIndent line
  · rw [h.void hvoid]
    exact List.nil_subset _
  · rw [h.text hvoid]
    exact List.subset_append_right _ _

/-! ## The ends of a block -/

/-- The lines without those at both ends that hold spaces and tabs only. -/
structure IsCore (lines kept : List (List Char)) : Prop where
  ends : ∃ before after, lines = before ++ (kept ++ after) ∧
    ∀ line ∈ before ++ after, OnlyIndent line
  first : ∀ line, kept.head? = some line → ¬ OnlyIndent line
  last : ∀ line, kept.getLast? = some line → ¬ OnlyIndent line

theorem exists_isCore (lines : List (List Char)) : ∃ kept, IsCore lines kept := by
  have hends := List.rdropWhile_append_rtakeWhile (p := isVoid) (l := lines.dropWhile isVoid)
  refine ⟨(lines.dropWhile isVoid).rdropWhile isVoid, ⟨lines.takeWhile isVoid,
    (lines.dropWhile isVoid).rtakeWhile isVoid, ?_, ?_⟩, ?_, ?_⟩
  · rw [hends, List.takeWhile_append_dropWhile]
  · intro line hline
    rcases List.mem_append.1 hline with hline | hline
    · exact isVoid_iff.1 (List.mem_takeWhile_imp hline)
    · exact isVoid_iff.1 (List.mem_rtakeWhile_imp hline)
  · intro line hline
    obtain ⟨rest, hrest⟩ := List.rdropWhile_prefix isVoid (l := lines.dropWhile isVoid)
    have hhead : (lines.dropWhile isVoid).head? = some line := by
      rw [← hrest, List.head?_append, hline, Option.some_or]
    have hnot := List.head?_dropWhile_not isVoid lines
    rw [hhead] at hnot
    exact isVoid_eq_false_iff.1 hnot
  · intro line hline
    have hne : (lines.dropWhile isVoid).rdropWhile isVoid ≠ [] := by
      intro hnil
      rw [hnil] at hline
      cases hline
    have hnot := List.rdropWhile_last_not isVoid _ hne
    rw [List.getLast?_eq_some_getLast hne] at hline
    rwa [Option.some.inj hline, isVoid_iff] at hnot

theorem IsCore.subset {kept : List (List Char)} (h : IsCore lines kept) :
    ∀ line ∈ kept, line ∈ lines := by
  obtain ⟨before, after, hsplit, -⟩ := h.ends
  intro line hline
  rw [hsplit]
  exact List.mem_append_right before (List.mem_append_left after hline)

/-! ## Joined pieces -/

theorem joinWith_cons (sep piece : List Char) {pieces : List (List Char)} (hne : pieces ≠ []) :
    joinWith sep (piece :: pieces) = piece ++ (sep ++ joinWith sep pieces) := by
  rw [joinWith]
  · rw [List.append_assoc]
  · exact hne

theorem joinWith_concat (sep : List Char) {pieces : List (List Char)} (hne : pieces ≠ [])
    (last : List Char) : joinWith sep (pieces ++ [last]) = joinWith sep pieces ++ (sep ++ last) := by
  induction pieces with
  | nil => exact absurd rfl hne
  | cons piece pieces ih =>
    by_cases hpieces : pieces = []
    · subst hpieces
      simp [joinWith]
    · rw [List.cons_append, joinWith_cons sep piece (List.append_ne_nil_of_left_ne_nil hpieces _),
        ih hpieces, joinWith_cons sep piece hpieces]
      simp only [List.append_assoc]

/-- A joined text ends as its last piece does. -/
theorem getLast?_joinWith (sep : List Char) {pieces : List (List Char)} {last : List Char}
    (h : pieces.getLast? = some last) (hne : last ≠ []) :
    (joinWith sep pieces).getLast? = last.getLast? := by
  obtain ⟨before, rfl⟩ := List.getLast?_eq_some_iff.1 h
  by_cases hbefore : before = []
  · rw [hbefore]
    rfl
  · rw [joinWith_concat sep hbefore, List.getLast?_append, List.getLast?_append,
      List.getLast?_eq_some_getLast hne, Option.some_or, Option.some_or]

theorem trimChar_joinWith_nil_cons (c : Char) (pieces : List (List Char)) :
    trimChar c (joinWith [c] ([] :: pieces)) = trimChar c (joinWith [c] pieces) := by
  by_cases hne : pieces = []
  · rw [hne]
    rfl
  · rw [joinWith_cons [c] [] hne, List.nil_append, List.singleton_append, trimChar, trimChar,
      List.dropWhile_cons_of_pos (by simp)]

theorem trimChar_concat (c : Char) (s : List Char) : trimChar c (s ++ [c]) = trimChar c s := by
  rw [trimChar, trimChar, List.dropWhile_append]
  by_cases hempty : (s.dropWhile (· == c)).isEmpty = true
  · rw [if_pos hempty, List.isEmpty_iff.1 hempty, List.dropWhile_cons_of_pos (by simp),
      List.dropWhile_nil]
  · rw [if_neg hempty]
    exact List.rdropWhile_concat_pos (· == c) _ c (by simp)

theorem trimChar_joinWith_concat_nil (c : Char) (pieces : List (List Char)) :
    trimChar c (joinWith [c] (pieces ++ [[]])) = trimChar c (joinWith [c] pieces) := by
  by_cases hne : pieces = []
  · rw [hne]
    rfl
  · rw [joinWith_concat [c] hne, List.append_nil, trimChar_concat]

/-- Trimming takes the empty pieces off both ends of a joined text. -/
theorem trimChar_joinWith_ends (c : Char) {before kept after : List (List Char)}
    (hbefore : ∀ piece ∈ before, piece = []) (hafter : ∀ piece ∈ after, piece = []) :
    trimChar c (joinWith [c] (before ++ (kept ++ after))) = trimChar c (joinWith [c] kept) := by
  induction before with
  | nil =>
    rw [List.nil_append]
    induction after using List.reverseRecOn with
    | nil => rw [List.append_nil]
    | append_singleton after piece ih =>
      rw [hafter piece (by simp), ← List.append_assoc, trimChar_joinWith_concat_nil]
      exact ih fun p hp => hafter p (List.mem_append_left _ hp)
  | cons piece before ih =>
    rw [hbefore piece List.mem_cons_self, List.cons_append, trimChar_joinWith_nil_cons]
    exact ih fun p hp => hbefore p (List.mem_cons_of_mem _ hp)

/-- Pieces without the separator, the first and the last of them not empty, give a text that
neither begins nor ends with the separator. -/
theorem ends_joinWith {c : Char} {pieces : List (List Char)} (hfree : ∀ piece ∈ pieces, c ∉ piece)
    (hfirst : pieces.head? ≠ some []) (hlast : pieces.getLast? ≠ some []) :
    (joinWith [c] pieces).head? ≠ some c ∧ (joinWith [c] pieces).getLast? ≠ some c := by
  by_cases hne : pieces = []
  · subst hne
    simp [joinWith]
  · constructor
    · obtain ⟨first, rest, rfl⟩ := List.exists_cons_of_ne_nil hne
      have hfirst' : first ≠ [] := fun h => hfirst (by rw [h]; rfl)
      rw [head?_joinWith hfirst']
      intro hc
      exact hfree first List.mem_cons_self (List.mem_of_head? hc)
    · have hlast' := List.getLast?_eq_some_getLast hne
      have hne' : pieces.getLast hne ≠ [] := fun h => hlast (by rw [hlast', h])
      rw [getLast?_joinWith [c] hlast' hne']
      intro hc
      exact hfree _ (List.getLast_mem hne) (List.mem_of_getLast? hc)

/-! ## The text of a block, line by line -/

variable {kept : List (List Char)}

/-- The lines of the text that some lines of a block give. -/
def shown (lines kept : List (List Char)) : List (List Char) :=
  kept.map (unindent (margin lines).length)

theorem IsCore.forall₂_shown (h : IsCore lines kept) :
    List.Forall₂ (Unindented (margin lines)) kept (shown lines kept) := by
  rw [shown, List.forall₂_map_right_iff, List.forall₂_same]
  intro line hline
  exact unindented_of_mem (h.subset line hline)

theorem onlyIndent_unindent_iff {line : List Char} (hline : line ∈ lines) :
    OnlyIndent (unindent (margin lines).length line) ↔ OnlyIndent line :=
  ((unindented_of_mem hline).onlyIndent_iff (isMargin_margin lines).onlyIndent).symm

/-- The text neither begins nor ends with an empty line. -/
theorem IsCore.ends_shown (h : IsCore lines kept) :
    (shown lines kept).head? ≠ some [] ∧ (shown lines kept).getLast? ≠ some [] := by
  have hne : ∀ line ∈ kept, ¬ OnlyIndent line → unindent (margin lines).length line ≠ [] := by
    intro line hline htext hnil
    have hout := onlyIndent_unindent_iff (h.subset line hline)
    rw [hnil] at hout
    exact htext (hout.1 (by decide))
  rw [shown, List.head?_map, List.getLast?_map]
  constructor
  · intro hnil
    obtain ⟨line, hline, hout⟩ := Option.map_eq_some_iff.1 hnil
    exact hne line (List.mem_of_head? hline) (h.first line hline) hout
  · intro hnil
    obtain ⟨line, hline, hout⟩ := Option.map_eq_some_iff.1 hnil
    exact hne line (List.mem_of_getLast? hline) (h.last line hline) hout

theorem IsCore.newline_not_mem (h : IsCore lines kept) (hlines : ∀ line ∈ lines, '\n' ∉ line) :
    ∀ out ∈ shown lines kept, '\n' ∉ out := by
  intro out hout hc
  obtain ⟨line, hline, rfl⟩ := List.mem_map.1 hout
  have hmem := h.subset line hline
  exact hlines line hmem ((unindented_of_mem hmem).subset hc)

theorem IsCore.ends_text (h : IsCore lines kept) (hlines : ∀ line ∈ lines, '\n' ∉ line) :
    (joinWith ['\n'] (shown lines kept)).head? ≠ some '\n' ∧
      (joinWith ['\n'] (shown lines kept)).getLast? ≠ some '\n' :=
  ends_joinWith (h.newline_not_mem hlines) h.ends_shown.1 h.ends_shown.2

/-- Every line of a block gives one line of its text, apart from the lines at both ends that carry
none. -/
theorem IsCore.blockText_eq (h : IsCore lines kept) (hlines : ∀ line ∈ lines, '\n' ∉ line) :
    blockText lines = joinWith ['\n'] (shown lines kept) := by
  obtain ⟨hfirst, hlast⟩ := h.ends_text hlines
  obtain ⟨before, after, hsplit, hvoid⟩ := h.ends
  by_cases hne : lines = []
  · have hkept : kept = [] := by
      refine List.eq_nil_iff_forall_not_mem.2 fun line hline => ?_
      have hmem := h.subset line hline
      rw [hne] at hmem
      cases hmem
    rw [hkept, hne]
    rfl
  · have hnil : ∀ line ∈ before ++ after, unindent (margin lines).length line = [] := by
      intro line hline
      rw [unindent, if_pos (isVoid_iff.2 (hvoid line hline))]
    have hparts : dedent lines = shown lines before ++ (shown lines kept ++ shown lines after) := by
      rw [dedent_eq_map, shown, shown, shown, ← List.map_append, ← List.map_append, ← hsplit]
    rw [blockText, splitOn_joinWith hne hlines, hparts, trimChar_joinWith_ends,
      trimChar_eq_self hfirst hlast]
    · rw [shown, List.forall_mem_map]
      exact fun line hline => hnil line (List.mem_append_left _ hline)
    · rw [shown, List.forall_mem_map]
      exact fun line hline => hnil line (List.mem_append_right _ hline)

theorem IsCore.splitOn_blockText (h : IsCore lines kept) (hlines : ∀ line ∈ lines, '\n' ∉ line)
    (hne : kept ≠ []) : splitOn '\n' (blockText lines) = shown lines kept := by
  rw [h.blockText_eq hlines, splitOn_joinWith (by simpa [shown] using hne) (h.newline_not_mem hlines)]

/-- The lines of the text have no indentation left in common. -/
theorem IsCore.margin_shown (h : IsCore lines kept) : margin (shown lines kept) = [] := by
  by_cases htext : ∃ out ∈ shown lines kept, ¬ OnlyIndent out
  · have hshared := isMargin_margin lines
    have hmore := isMargin_margin (shown lines kept)
    -- What the lines of the text shared would lengthen the margin of the block.
    have hlonger : margin lines ++ margin (shown lines kept) <+: margin lines := by
      refine hshared.longest ?_ _ ?_ ?_
      · obtain ⟨out, hout, hnot⟩ := htext
        obtain ⟨line, hline, rfl⟩ := List.mem_map.1 hout
        have hmem := h.subset line hline
        exact ⟨line, hmem, fun hvoid => hnot ((onlyIndent_unindent_iff hmem).2 hvoid)⟩
      · intro c hc
        rcases List.mem_append.1 hc with hc | hc
        · exact hshared.onlyIndent c hc
        · exact hmore.onlyIndent c hc
      · intro line hline hnot
        have hkept : line ∈ kept := by
          obtain ⟨before, after, hsplit, hvoid⟩ := h.ends
          rw [hsplit, List.mem_append, List.mem_append] at hline
          rcases hline with hbefore | hkept | hafter
          · exact absurd (hvoid line (List.mem_append_left _ hbefore)) hnot
          · exact hkept
          · exact absurd (hvoid line (List.mem_append_right _ hafter)) hnot
        have hout := hmore.common _ (List.mem_map_of_mem hkept)
          fun hvoid => hnot ((onlyIndent_unindent_iff hline).1 hvoid)
        rw [(unindented_of_mem hline).text hnot]
        exact (List.prefix_append_right_inj _).2 hout
    have hlength := hlonger.length_le
    rw [List.length_append] at hlength
    exact List.eq_nil_of_length_eq_zero (by omega)
  · refine margin_of_onlyIndent fun out hout => ?_
    by_contra hnot
    exact htext ⟨out, hout, hnot⟩

/-- The text of a block is the text of the block that holds its lines. -/
theorem IsCore.blockText_blockText (h : IsCore lines kept)
    (hlines : ∀ line ∈ lines, '\n' ∉ line) :
    blockText (splitOn '\n' (blockText lines)) = blockText lines := by
  by_cases hne : kept = []
  · rw [h.blockText_eq hlines, hne]
    rfl
  · have hsplit := h.splitOn_blockText hlines hne
    obtain ⟨hfirst, hlast⟩ := h.ends_text hlines
    rw [← h.blockText_eq hlines] at hfirst hlast
    refine blockText_splitOn hfirst hlast ?_ (by rw [hsplit, h.margin_shown])
    intro out hout hvoid
    rw [hsplit] at hout
    obtain ⟨line, hline, rfl⟩ := List.mem_map.1 hout
    have hmem := h.subset line hline
    exact (unindented_of_mem hmem).void ((onlyIndent_unindent_iff hmem).1 (isVoid_iff.1 hvoid))

/-! ## Trimmed lines -/

theorem OnlyIndent.isBlank {s : List Char} (h : OnlyIndent s) : ∀ c ∈ s, isBlank c = true := by
  intro c hc
  rcases h c hc with rfl | rfl
  · decide
  · decide

theorem OnlyIndent.trim_eq_nil {s : List Char} (h : OnlyIndent s) : trim s = [] := by
  have htrim := trim_append_of_blank h.isBlank []
  rwa [List.append_nil, trim_nil] at htrim

theorem Unindented.trim_eq {shared line out : List Char} (hshared : OnlyIndent shared)
    (h : Unindented shared line out) : trim out = trim line := by
  by_cases hvoid : OnlyIndent line
  · rw [h.void hvoid, hvoid.trim_eq_nil, trim_nil]
  · rw [h.text hvoid, trim_append_of_blank hshared.isBlank]

theorem filter_trim_of_onlyIndent (h : ∀ line ∈ lines, OnlyIndent line) :
    (lines.map trim).filter (!·.isEmpty) = [] := by
  rw [List.filter_eq_nil_iff, List.forall_mem_map]
  intro line hline
  simp [(h line hline).trim_eq_nil]

/-- Without blank lines and blank ends, the lines of a text are those of its block. -/
theorem filter_trim_splitOn_blockText (hlines : ∀ line ∈ lines, '\n' ∉ line) :
    ((splitOn '\n' (blockText lines)).map trim).filter (!·.isEmpty) =
      (lines.map trim).filter (!·.isEmpty) := by
  obtain ⟨kept, hcore⟩ := exists_isCore lines
  obtain ⟨before, after, hsplit, hvoid⟩ := hcore.ends
  have hbefore := filter_trim_of_onlyIndent fun line hline =>
    hvoid line (List.mem_append_left after hline)
  have hafter := filter_trim_of_onlyIndent fun line hline =>
    hvoid line (List.mem_append_right before hline)
  have hrest : (lines.map trim).filter (!·.isEmpty) = (kept.map trim).filter (!·.isEmpty) := by
    rw [hsplit, List.map_append, List.map_append, List.filter_append, List.filter_append, hbefore,
      hafter, List.nil_append, List.append_nil]
  rw [hrest]
  by_cases hne : kept = []
  · rw [hcore.blockText_eq hlines, hne]
    rfl
  · rw [hcore.splitOn_blockText hlines hne, shown, List.map_map]
    congr 1
    refine List.map_congr_left fun line hline => ?_
    exact (unindented_of_mem (hcore.subset line hline)).trim_eq (isMargin_margin lines).onlyIndent

/-! ## What a block loses -/

/-- A block loses nothing but its common indentation: a further indentation of all its lines does
not change its text, its text is its own block, and line by line the text is the block without
the longest spaces and tabs that its lines have in common, where lines of spaces and tabs only are
empty and those at the ends are left out. -/
theorem blockText_takes_margin (hlines : ∀ line ∈ lines, '\n' ∉ line) :
    (∀ blank, OnlyIndent blank → blockText (lines.map (blank ++ ·)) = blockText lines) ∧
    blockText (splitOn '\n' (blockText lines)) = blockText lines ∧
    ∃ shared kept out, IsMargin lines shared ∧ IsCore lines kept ∧
      List.Forall₂ (Unindented shared) kept out ∧ blockText lines = joinWith ['\n'] out ∧
      (kept ≠ [] → splitOn '\n' (blockText lines) = out) := by
  obtain ⟨kept, hcore⟩ := exists_isCore lines
  refine ⟨fun blank hblank => ?_, hcore.blockText_blockText hlines, margin lines, kept,
    shown lines kept, isMargin_margin lines, hcore, hcore.forall₂_shown,
    hcore.blockText_eq hlines, hcore.splitOn_blockText hlines⟩
  exact blockText_map_append (isVoid_iff.2 hblank) hlines

/-- A block whose lines share a tab, with lines of spaces and tabs at both ends and between the
others. -/
def tabbedBlock : List (List Char) :=
  ["  ".toList, "\t  if a".toList, "\t \t".toList, "\t\t b\u00a0".toList, "\t".toList]

theorem blockText_takes_margin_tabbed :
    (∀ line ∈ tabbedBlock, '\n' ∉ line) ∧
    blockText (tabbedBlock.map (" \t".toList ++ ·)) = "  if a\n\n\t b\u00a0".toList ∧
    blockText (splitOn '\n' "  if a\n\n\t b\u00a0".toList) = "  if a\n\n\t b\u00a0".toList ∧
    ∃ shared kept out, IsMargin tabbedBlock shared ∧ IsCore tabbedBlock kept ∧
      List.Forall₂ (Unindented shared) kept out ∧
      "  if a\n\n\t b\u00a0".toList = joinWith ['\n'] out := by
  have hlines : ∀ line ∈ tabbedBlock, '\n' ∉ line := by decide
  have htext : blockText tabbedBlock = "  if a\n\n\t b\u00a0".toList := by decide
  obtain ⟨hindent, hagain, shared, kept, out, hmargin, hcore, hout, hjoined, -⟩ :=
    blockText_takes_margin hlines
  rw [htext] at hindent hagain hjoined
  exact ⟨hlines, hindent " \t".toList (by decide), hagain, shared, kept, out, hmargin, hcore, hout,
    hjoined⟩

end Courier.Text
