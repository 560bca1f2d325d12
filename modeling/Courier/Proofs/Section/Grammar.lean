import Courier.Section.Basic
import Mathlib.Tactic.Common

/-!
# The line grammar of documents

`Section.scan` reads a document line by line with the open section as its state.  This module
says what a document is without a state.  `Reading lines sections` holds when the lines can be cut,
from left to right and with none left over, into skipped lines and blocks, one block for each
section.  A block is an opening line, the lines of the section, and a closing line; the last block
of a document may lack its closing line.

There are three groups.

* Single lines.  `opening?_eq_none_iff` and `opening?_eq_some_iff` say which lines `opening?` takes
  for skipped ones and which for opening ones.
* The state of an open section.  `Delimiter.formAfter` gives the form of a section after the lines
  it has kept, and `after?_formAfter` is the step: a line closes the section or is kept.
  `scanLines_keep` and `scanLines_block` follow from it for any number of lines, and
  `scanLines_open` says that one of the two ends of a block is always met.
* The grammar.  `scan_eq_iff_reading` says that the scanner returns a list of sections exactly when
  the lines of the document can be read as that list.  In particular no document has two readings
  with different sections.
-/

namespace Courier.Section

open Text (trim splitLines)

/-! ## Single lines -/

/-- A line that stands for nothing between two blocks: a blank line, a comment, or a line that ends
in neither an opening brace nor an opening bracket. -/
def IsSkipped (line : Line) : Prop :=
  trim line = [] ∨ "//".toList <+: trim line ∨
    ((trim line).getLast? ≠ some '\x7b' ∧ (trim line).getLast? ≠ some '[')

/-- What encloses a block. -/
inductive Delimiter where
  | brace
  | bracket
  deriving DecidableEq, Repr

namespace Delimiter

/-- The character at the end of an opening line. -/
def mark : Delimiter → Char
  | .brace => '\x7b'
  | .bracket => '['

/-- The line opens a block with the given name. -/
def Opens (d : Delimiter) (line : Line) (name : String) : Prop :=
  ¬ IsSkipped line ∧ ∃ before, trim line = before ++ [d.mark] ∧ name = String.ofList (trim before)

end Delimiter

/-- The number of open braces after lines that follow an opening line. -/
def balance (lines : List Line) : Int :=
  1 + (lines.flatten.count '\x7b' : Int) - (lines.flatten.count '\x7d' : Int)

@[simp] theorem balance_nil : balance [] = 1 := rfl

theorem balance_concat (lines : List Line) (line : Line) :
    balance (lines ++ [line]) =
      balance lines + ((line.count '\x7b' : Int) - (line.count '\x7d' : Int)) := by
  simp only [balance, List.flatten_append, List.flatten_singleton, List.count_append,
    Int.natCast_add]
  omega

namespace Delimiter

/-- The lines leave a block open, each of them in its turn. -/
def StaysOpen : Delimiter → List Line → Prop
  | .brace, lines => ∀ before, before <+: lines → 0 < balance before
  | .bracket, lines => ∀ line ∈ lines, trim line ≠ [']']

/-- The line closes a block that holds the given lines. -/
def ClosedBy : Delimiter → List Line → Line → Prop
  | .brace, lines, closer => balance (lines ++ [closer]) ≤ 0
  | .bracket, _, closer => trim closer = [']']

/-- The form of an open section that holds the given lines. -/
def formAfter : Delimiter → List Line → Form
  | .brace, lines => .text (balance lines).toNat
  | .bracket, _ => .list

end Delimiter

/-- What `opening?` answers for a line, by the last character of its text. -/
theorem opening?_of_trim {line before : Line} {c : Char} (h : trim line = before ++ [c]) :
    opening? line =
      if "//".toList <+: trim line then none
      else if c = '\x7b' then some (String.ofList (trim before), .text 1)
      else if c = '[' then some (String.ofList (trim before), .list)
      else none := by
  simp only [opening?, h, List.getLast?_concat, List.dropLast_concat, List.isPrefixOf_iff_prefix]
  split
  · rfl
  · split <;> simp_all

theorem opening?_of_blank {line : Line} (h : trim line = []) : opening? line = none := by
  simp [opening?, h]

theorem opening?_eq_none_iff (line : Line) : opening? line = none ↔ IsSkipped line := by
  unfold IsSkipped
  rcases List.eq_nil_or_concat (trim line) with h | ⟨before, c, h⟩
  · simp [opening?_of_blank h, h]
  · rw [List.concat_eq_append] at h
    rw [opening?_of_trim h, h]
    simp only [List.append_eq_nil_iff, List.cons_ne_self, List.getLast?_concat]
    split_ifs <;> simp_all

/-- An opening line opens the block that its last character says, under the text before it. -/
theorem opening?_eq_some_iff (d : Delimiter) (line : Line) (name : String) :
    opening? line = some (name, d.formAfter []) ↔ d.Opens line name := by
  unfold Delimiter.Opens
  rw [← opening?_eq_none_iff]
  rcases List.eq_nil_or_concat (trim line) with h | ⟨before, c, h⟩
  · simp [opening?_of_blank h, h]
  · rw [List.concat_eq_append] at h
    have hcut : (∃ b, trim line = b ++ [d.mark] ∧ name = String.ofList (trim b)) ↔
        c = d.mark ∧ name = String.ofList (trim before) := by
      rw [h]
      constructor
      · rintro ⟨b, hb, hn⟩
        obtain ⟨rfl, hc⟩ := List.append_inj' hb rfl
        exact ⟨by simpa using hc, hn⟩
      · rintro ⟨rfl, hn⟩
        exact ⟨before, rfl, hn⟩
    rw [hcut, opening?_of_trim h]
    cases d with
    | brace =>
      simp only [Delimiter.formAfter, Delimiter.mark, balance_nil]
      split_ifs <;> simp_all [eq_comm]
    | bracket =>
      simp only [Delimiter.formAfter, Delimiter.mark]
      split_ifs <;> simp_all [eq_comm]

/-- A line that is not skipped opens a block of one of the two kinds. -/
theorem opening?_eq_some {line : Line} {name : String} {form : Form}
    (h : opening? line = some (name, form)) : ∃ d : Delimiter, form = d.formAfter [] := by
  rcases List.eq_nil_or_concat (trim line) with hb | ⟨before, c, hb⟩
  · simp [opening?_of_blank hb] at h
  · rw [List.concat_eq_append] at hb
    rw [opening?_of_trim hb] at h
    split_ifs at h
    · simp only [Option.some.injEq, Prod.mk.injEq] at h
      exact ⟨.brace, h.2.symm⟩
    · simp only [Option.some.injEq, Prod.mk.injEq] at h
      exact ⟨.bracket, h.2.symm⟩

/-! ## The state of an open section -/

theorem Delimiter.staysOpen_nil (d : Delimiter) : d.StaysOpen [] := by
  cases d with
  | brace =>
    intro before h
    rw [List.prefix_nil.1 h, balance_nil]
    decide
  | bracket =>
    intro line h
    simp at h

theorem Delimiter.staysOpen_concat (d : Delimiter) (seen : List Line) (line : Line) :
    d.StaysOpen (seen ++ [line]) ↔ d.StaysOpen seen ∧ ¬ d.ClosedBy seen line := by
  cases d with
  | brace =>
    simp only [Delimiter.StaysOpen, Delimiter.ClosedBy, List.prefix_concat_iff]
    constructor
    · intro h
      exact ⟨fun before hb => h before (.inr hb), by simpa using h (seen ++ [line]) (.inl rfl)⟩
    · rintro ⟨hs, hc⟩ before (rfl | hb)
      · omega
      · exact hs before hb
  | bracket =>
    simp only [Delimiter.StaysOpen, Delimiter.ClosedBy, List.mem_append, List.mem_singleton]
    constructor
    · intro h
      exact ⟨fun l hl => h l (.inl hl), h line (.inr rfl)⟩
    · rintro ⟨hs, hc⟩ l (hl | rfl)
      · exact hs l hl
      · exact hc

theorem Delimiter.StaysOpen.of_append {d : Delimiter} {seen lines : List Line}
    (h : d.StaysOpen (seen ++ lines)) : d.StaysOpen seen := by
  cases d with
  | brace =>
    intro before hb
    exact h before (hb.trans (List.prefix_append seen lines))
  | bracket =>
    intro line hl
    exact h line (List.mem_append_left lines hl)

/-- One line of an open section.  A line that closes the section ends it, and after any other line
the section has the form of its lines with the new one. -/
theorem after?_formAfter {d : Delimiter} {seen : List Line} (h : d.StaysOpen seen) (line : Line) :
    (d.ClosedBy seen line → (d.formAfter seen).after? line = none) ∧
      (¬ d.ClosedBy seen line →
        (d.formAfter seen).after? line = some (d.formAfter (seen ++ [line]))) := by
  cases d with
  | brace =>
    have hpos : 0 < balance seen := h seen (List.prefix_refl seen)
    have hnext := balance_concat seen line
    simp only [Delimiter.ClosedBy, Delimiter.formAfter, Form.after?]
    constructor
    · intro hc
      rw [if_pos (by omega)]
    · intro hc
      rw [if_neg (by omega)]
      congr 2
      omega
  | bracket =>
    simp only [Delimiter.ClosedBy, Delimiter.formAfter, Form.after?]
    exact ⟨fun hc => if_pos hc, fun hc => if_neg hc⟩

/-- An open section that has kept some lines. -/
def Delimiter.opened (d : Delimiter) (name : String) (lines : List Line) : Open :=
  ⟨name, d.formAfter lines, lines.reverse⟩

theorem Delimiter.close_opened (d : Delimiter) (name : String) (lines : List Line) :
    (d.opened name lines).close = ⟨name, lines⟩ := by
  simp [Delimiter.opened, Open.close]

/-- Lines that leave a section open are kept in it. -/
theorem scanLines_keep {d : Delimiter} (name : String) {seen lines : List Line}
    (h : d.StaysOpen (seen ++ lines)) (rest : List Line) :
    scanLines (some (d.opened name seen)) (lines ++ rest) =
      scanLines (some (d.opened name (seen ++ lines))) rest := by
  induction lines generalizing seen with
  | nil => simp
  | cons line lines ih =>
    have hcut : seen ++ line :: lines = (seen ++ [line]) ++ lines := by simp
    rw [hcut] at h ⊢
    obtain ⟨hseen, hline⟩ := (d.staysOpen_concat seen line).1 h.of_append
    have hstep := (after?_formAfter hseen line).2 hline
    rw [List.cons_append, scanLines, ← ih h]
    simp only [Delimiter.opened, hstep, List.reverse_append, List.reverse_singleton,
      List.singleton_append]

/-- A line that closes a section ends it, and the lines after it are read on their own. -/
theorem scanLines_close {d : Delimiter} (name : String) {lines : List Line} {closer : Line}
    (h : d.StaysOpen lines) (hclose : d.ClosedBy lines closer) (rest : List Line) :
    scanLines (some (d.opened name lines)) (closer :: rest) =
      ⟨name, lines⟩ :: scanLines none rest := by
  have hstep := (after?_formAfter h closer).1 hclose
  rw [scanLines, ← d.close_opened name lines]
  simp only [Delimiter.opened, hstep]

/-- A whole block gives one section. -/
theorem scanLines_block {d : Delimiter} {opener : Line} {name : String} {lines : List Line}
    {closer : Line} (hopen : d.Opens opener name) (h : d.StaysOpen lines)
    (hclose : d.ClosedBy lines closer) (rest : List Line) :
    scanLines none (opener :: (lines ++ closer :: rest)) =
      ⟨name, lines⟩ :: scanLines none rest := by
  rw [scanLines, (opening?_eq_some_iff d opener name).2 hopen]
  have hkeep : scanLines (some (d.opened name [])) (lines ++ closer :: rest) =
      scanLines (some (d.opened name lines)) (closer :: rest) :=
    scanLines_keep name h (closer :: rest)
  exact hkeep.trans (scanLines_close name h hclose rest)

/-- A block without closing line gives the last section. -/
theorem scanLines_unclosed {d : Delimiter} {opener : Line} {name : String} {lines : List Line}
    (hopen : d.Opens opener name) (h : d.StaysOpen lines) :
    scanLines none (opener :: lines) = [⟨name, lines⟩] := by
  rw [scanLines, (opening?_eq_some_iff d opener name).2 hopen]
  have hkeep : scanLines (some (d.opened name [])) (lines ++ []) =
      scanLines (some (d.opened name lines)) [] := scanLines_keep name h []
  rw [List.append_nil] at hkeep
  exact hkeep.trans (by rw [scanLines, d.close_opened])

/-- The lines after an opening line hold a line that closes the section, or leave it open. -/
theorem Delimiter.closes_or_staysOpen (d : Delimiter) {seen : List Line} (h : d.StaysOpen seen)
    (lines : List Line) :
    (∃ kept closer rest, lines = kept ++ closer :: rest ∧ d.StaysOpen (seen ++ kept) ∧
        d.ClosedBy (seen ++ kept) closer) ∨
      d.StaysOpen (seen ++ lines) := by
  induction lines generalizing seen with
  | nil => exact .inr (by simpa using h)
  | cons line lines ih =>
    by_cases hc : d.ClosedBy seen line
    · exact .inl ⟨[], line, lines, rfl, by simpa using h, by simpa using hc⟩
    · have hcut : seen ++ line :: lines = (seen ++ [line]) ++ lines := by simp
      rcases ih ((d.staysOpen_concat seen line).2 ⟨h, hc⟩) with
        ⟨kept, closer, rest, rfl, hkept, hclose⟩ | hopen
      · exact .inl ⟨line :: kept, closer, rest, rfl, by simpa using hkept, by simpa using hclose⟩
      · exact .inr (by rwa [hcut])

/-! ## The grammar -/

/-- The lines can be cut into skipped lines and blocks, one block for each section. -/
inductive Reading : List Line → List Section → Prop
  | nil : Reading [] []
  | skip {line : Line} {rest : List Line} {sections : List Section}
      (hskip : IsSkipped line) (tail : Reading rest sections) :
      Reading (line :: rest) sections
  | block {d : Delimiter} {opener closer : Line} {name : String} {lines rest : List Line}
      {sections : List Section} (hopen : d.Opens opener name) (hlines : d.StaysOpen lines)
      (hclose : d.ClosedBy lines closer) (tail : Reading rest sections) :
      Reading (opener :: (lines ++ closer :: rest)) (⟨name, lines⟩ :: sections)
  | unclosed {d : Delimiter} {opener : Line} {name : String} {lines : List Line}
      (hopen : d.Opens opener name) (hlines : d.StaysOpen lines) :
      Reading (opener :: lines) [⟨name, lines⟩]

/-- A reading of lines gives the sections that the scanner finds. -/
theorem scanLines_of_reading {lines : List Line} {sections : List Section}
    (h : Reading lines sections) : scanLines none lines = sections := by
  induction h with
  | nil => rfl
  | skip hskip tail ih =>
    rw [scanLines, (opening?_eq_none_iff _).2 hskip]
    exact ih
  | block hopen hlines hclose tail ih =>
    rw [scanLines_block hopen hlines hclose, ih]
  | unclosed hopen hlines => exact scanLines_unclosed hopen hlines

/-- All lines can be read, as the sections that the scanner finds. -/
theorem reading_scanLines (lines : List Line) : Reading lines (scanLines none lines) := by
  induction h : lines.length using Nat.strongRecOn generalizing lines with
  | ind n ih =>
    cases lines with
    | nil => exact .nil
    | cons line rest =>
      subst h
      rcases hline : opening? line with _ | ⟨name, form⟩
      · rw [scanLines, hline]
        exact .skip ((opening?_eq_none_iff line).1 hline) (ih _ (by simp) rest rfl)
      · obtain ⟨d, rfl⟩ := opening?_eq_some hline
        have hopen := (opening?_eq_some_iff d line name).1 hline
        rcases d.closes_or_staysOpen d.staysOpen_nil rest with
          ⟨kept, closer, after, rfl, hkept, hclose⟩ | hrest
        · rw [List.nil_append] at hkept hclose
          rw [scanLines_block hopen hkept hclose]
          exact .block hopen hkept hclose (ih _ (by simp; omega) after rfl)
        · rw [List.nil_append] at hrest
          rw [scanLines_unclosed hopen hrest]
          exact .unclosed hopen hrest

/-- The scanner finds a list of sections exactly when the lines of the document can be read as that
list. -/
theorem scan_eq_iff_reading (text : List Char) (sections : List Section) :
    scan text = sections ↔ Reading (splitLines text) sections := by
  constructor
  · rintro rfl
    exact reading_scanLines (splitLines text)
  · exact scanLines_of_reading

end Courier.Section
