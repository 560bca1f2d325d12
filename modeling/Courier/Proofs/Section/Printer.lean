import Courier.Proofs.Section.Grammar
import Courier.Proofs.Text.Cut
import Courier.Proofs.Text.Trim
import Courier.Section.Basic
import Mathlib.Tactic.Common

/-!
# Documents written from sections

`Section.print` writes each section as a line with its name and an opening brace, the lines of the
section, and a closing brace.  A section can be written in this way when no line of it holds a line
break and its braces are nested (`Section.Nested`), so that the closing brace after its lines is the
first one that balances the opening one.  `scan_print` says that the scanner finds the sections of
such a document again.

Lines whose own braces balance are nested, in any number and order (`nested_of_balanced`), and
indenting lines does not change whether they are (`nested_map_append`).
-/

namespace Courier.Section

open Text (trim isBlank isLineBreak joinWith splitLines)

/-! ## Nested lines -/

/-- The braces of the lines balance in the end and leave none to close on the way. -/
def Nested (lines : List Line) : Prop := Delimiter.brace.StaysOpen lines ∧ balance lines = 1

theorem nested_iff (lines : List Line) :
    Nested lines ↔ (∀ n ≤ lines.length, 0 < balance (lines.take n)) ∧ balance lines = 1 := by
  refine and_congr_left fun _ => ⟨fun h n _ => h _ (List.take_prefix n lines), ?_⟩
  intro h before hbefore
  have hpos := h before.length hbefore.length_le
  rwa [← List.prefix_iff_eq_take.1 hbefore] at hpos

instance : DecidablePred Nested := fun lines => decidable_of_iff' _ (nested_iff lines)

theorem balance_append (first second : List Line) :
    balance (first ++ second) = balance first + (balance second - 1) := by
  simp only [balance, List.flatten_append, List.count_append, Int.natCast_add]
  omega

theorem balance_of_balanced {lines : List Line}
    (h : ∀ line ∈ lines, line.count '\x7b' = line.count '\x7d') : balance lines = 1 := by
  induction lines with
  | nil => rfl
  | cons line lines ih =>
    have hline := h line List.mem_cons_self
    have hrest := ih fun l hl => h l (List.mem_cons_of_mem _ hl)
    rw [← List.singleton_append, balance_append, hrest]
    simp [balance, hline]

theorem nested_of_balanced {lines : List Line}
    (h : ∀ line ∈ lines, line.count '\x7b' = line.count '\x7d') : Nested lines := by
  refine ⟨fun before hbefore => ?_, balance_of_balanced h⟩
  rw [balance_of_balanced fun line hline => h line (hbefore.subset hline)]
  decide

theorem balance_map_append {blank : Line} (h : ∀ c ∈ blank, isBlank c = true)
    (lines : List Line) : balance (lines.map (blank ++ ·)) = balance lines := by
  have hcount : ∀ c, isBlank c = false →
      (lines.map (blank ++ ·)).flatten.count c = lines.flatten.count c := by
    intro c hc
    have hmem : c ∉ blank := fun hmem => by
      rw [h c hmem] at hc
      exact absurd hc (by decide)
    rw [List.count_flatten, List.count_flatten, List.map_map]
    congr 1
    refine List.map_congr_left fun line _ => ?_
    rw [Function.comp_apply, List.count_append, List.count_eq_zero_of_not_mem hmem, Nat.zero_add]
  rw [balance, balance, hcount _ (by decide), hcount _ (by decide)]

/-- Indented lines are nested when the lines are. -/
theorem nested_map_append {blank : Line} (h : ∀ c ∈ blank, isBlank c = true) {lines : List Line}
    (hnested : Nested lines) : Nested (lines.map (blank ++ ·)) := by
  obtain ⟨hopen, hbalance⟩ := hnested
  refine ⟨fun before hbefore => ?_, by rw [balance_map_append h, hbalance]⟩
  obtain ⟨first, hfirst, rfl⟩ : ∃ first, first <+: lines ∧ before = first.map (blank ++ ·) := by
    refine ⟨lines.take before.length, List.take_prefix _ _, ?_⟩
    rw [List.map_take]
    exact List.prefix_iff_eq_take.1 hbefore
  rw [balance_map_append h]
  exact hopen first hfirst

/-! ## Writing -/

/-- The lines of a section, between the line that opens it and the line that closes it. -/
def block (s : Section) : List Line :=
  (s.name.toList ++ " \x7b".toList) :: (s.lines ++ ["\x7d".toList])

/-- The document of a list of sections. -/
def print (sections : List Section) : List Char := joinWith ['\n'] (sections.flatMap block)

/-- The section can be written so that it can be read. -/
structure Printable (s : Section) : Prop where
  name_ne : s.name ≠ ""
  name_trim : trim s.name.toList = s.name.toList
  name_comment : ¬ "//".toList <+: s.name.toList
  name_breaks : ∀ c ∈ s.name.toList, isLineBreak c = false
  breaks : ∀ line ∈ s.lines, ∀ c ∈ line, isLineBreak c = false
  nested : Nested s.lines

variable {s : Section}

theorem Printable.name_toList_ne (h : s.Printable) : s.name.toList ≠ [] := by
  simpa using h.name_ne

/-- The first line of a written section opens it. -/
theorem Printable.opens (h : s.Printable) :
    Delimiter.brace.Opens (s.name.toList ++ " \x7b".toList) s.name := by
  have hname := h.name_toList_ne
  have htrim : trim (s.name.toList ++ " \x7b".toList) = s.name.toList ++ [' '] ++ ['\x7b'] := by
    have hbrace : trim ['\x7b'] = ['\x7b'] := by decide
    rw [← Text.trim_append_append h.name_trim hbrace hname (by simp) [' '], List.append_assoc]
    rfl
  have hbefore : trim (s.name.toList ++ [' ']) = s.name.toList :=
    Text.trim_append_blank h.name_trim (by decide)
  refine ⟨?_, s.name.toList ++ [' '], htrim, by rw [hbefore, String.ofList_toList]⟩
  rintro (hnil | hcomment | ⟨hbrace, -⟩)
  · rw [htrim] at hnil
    simp at hnil
  · rw [htrim] at hcomment
    refine h.name_comment ?_
    rcases hchars : s.name.toList with _ | ⟨a, _ | ⟨b, rest⟩⟩
    · exact absurd hchars hname
    · simp [hchars] at hcomment
    · simpa [hchars] using hcomment
  · rw [htrim, List.getLast?_concat] at hbrace
    exact hbrace rfl

/-- The last line of a written section closes it. -/
theorem Printable.closedBy (h : s.Printable) :
    Delimiter.brace.ClosedBy s.lines "\x7d".toList := by
  have hbalance := h.nested.2
  change balance (s.lines ++ ["\x7d".toList]) ≤ 0
  rw [balance_concat, hbalance]
  decide

/-- The scanner finds the sections of a written document. -/
theorem scan_print {sections : List Section} (h : ∀ s ∈ sections, s.Printable) :
    scan (print sections) = sections := by
  have hbreaks : ∀ line ∈ sections.flatMap block, ∀ c ∈ line, isLineBreak c = false := by
    intro line hline c hc
    obtain ⟨s, hs, hmem⟩ := List.mem_flatMap.1 hline
    have hprint := h s hs
    rcases List.mem_cons.1 hmem with rfl | hmem
    · rcases List.mem_append.1 hc with hc | hc
      · exact hprint.name_breaks c hc
      · exact (by decide : ∀ x ∈ " \x7b".toList, isLineBreak x = false) c hc
    · rcases List.mem_append.1 hmem with hmem | hmem
      · exact hprint.breaks line hmem c hc
      · rw [List.mem_singleton.1 hmem] at hc
        exact (by decide : ∀ x ∈ "\x7d".toList, isLineBreak x = false) c hc
  have hlast : ∀ line, (sections.flatMap block).getLast? = some line → line ≠ [] := by
    intro line hline
    rcases List.eq_nil_or_concat sections with rfl | ⟨front, last, rfl⟩
    · simp at hline
    · have hfinal : ((front.concat last).flatMap block).getLast? = some "\x7d".toList := by
        rw [List.concat_eq_append, List.flatMap_append, List.flatMap_singleton, block,
          ← List.cons_append, ← List.append_assoc, List.getLast?_concat]
      rw [hfinal] at hline
      rw [← Option.some.inj hline]
      decide
  rw [scan, print, Text.splitLines_joinWith hbreaks hlast]
  clear hbreaks hlast
  induction sections with
  | nil => rfl
  | cons s sections ih =>
    have hprint := h s List.mem_cons_self
    rw [List.flatMap_cons, block, List.cons_append, List.append_assoc, List.singleton_append,
      scanLines_block hprint.opens hprint.nested.1 hprint.closedBy,
      ih fun s hs => h s (List.mem_cons_of_mem _ hs)]

end Courier.Section
