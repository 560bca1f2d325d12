import Courier.Proofs.Section.Grammar
import Courier.Proofs.Text.Trim
import Mathlib.Data.List.Induction
import Mathlib.Tactic.Common

/-!
# Lines of open sections

A line that is read while a section is open belongs to that section or ends it.  A line that ends it
is not kept, whatever else it holds.

* The state between two lines.  `advance` is one line of the scanner and `openAfter?` the section
  that is open after some lines; `openAfter?_eq_some` says where such a section began and what it
  has kept.  `scanLines_append` cuts a run of the scanner in two.
* One line.  `Closes` says by the braces of a section which line ends it, and `kept_or_ends` what
  becomes of a line in both cases.
* The whole document.  `Retained` says that no line is lost apart from lone closing brackets.
  `retained_iff` says when this holds: exactly if the braces of a section never balance at a line
  with other characters, and in particular if no such line closes more braces than it opens.
  `not_retained_quoted` shows a body that is lost because it has a brace in quotes.
-/

namespace Courier.Section

open Text (isBlank splitLines trim)

/-! ## The state between two lines -/

/-- The section that is open after one more line. -/
def advance (s : Option Open) (line : Line) : Option Open :=
  match s with
  | none => (opening? line).map fun (name, form) => ⟨name, form, []⟩
  | some s => (s.form.after? line).map fun form => { s with form := form, lines := line :: s.lines }

/-- The section that is open after the first lines of a document. -/
def openAfter? (lines : List Line) : Option Open := lines.foldl advance none

/-- The section that the line ends. -/
def ended? (s : Option Open) (line : Line) : Option Section :=
  match s with
  | none => none
  | some s => if s.form.after? line = none then some s.close else none

/-- The sections that the lines end, given the section they begin in. -/
def endedIn : Option Open → List Line → List Section
  | _, [] => []
  | s, line :: rest => (ended? s line).toList ++ endedIn (advance s line) rest

theorem scanLines_cons (s : Option Open) (line : Line) (rest : List Line) :
    scanLines s (line :: rest) = (ended? s line).toList ++ scanLines (advance s line) rest := by
  rcases s with _ | s
  · rw [scanLines]
    rcases hline : opening? line with _ | ⟨name, form⟩ <;> simp [advance, ended?, hline]
  · rw [scanLines]
    rcases hline : s.form.after? line with _ | form <;> simp [advance, ended?, hline]

/-- A run of the scanner over two parts of a document. -/
theorem scanLines_append (first rest : List Line) (s : Option Open) :
    scanLines s (first ++ rest) = endedIn s first ++ scanLines (first.foldl advance s) rest := by
  induction first generalizing s with
  | nil => rfl
  | cons line first ih =>
    rw [List.cons_append, scanLines_cons, ih, endedIn, List.foldl_cons, List.append_assoc]

/-- An open section is found, with the lines it has kept at its beginning. -/
theorem exists_scanLines_some (s : Open) (rest : List Line) :
    ∃ more later, scanLines (some s) rest = ⟨s.name, s.lines.reverse ++ more⟩ :: later := by
  induction rest generalizing s with
  | nil => exact ⟨[], [], by simp [scanLines, Open.close]⟩
  | cons line rest ih =>
    rw [scanLines_cons]
    rcases hline : s.form.after? line with _ | form
    · exact ⟨[], _, by simp [ended?, hline, Open.close]; rfl⟩
    · obtain ⟨more, later, hrest⟩ := ih { s with form := form, lines := line :: s.lines }
      refine ⟨line :: more, later, ?_⟩
      simpa [ended?, advance, hline] using hrest

theorem openAfter?_concat (lines : List Line) (line : Line) :
    openAfter? (lines ++ [line]) = advance (openAfter? lines) line := by
  simp [openAfter?]

/-- A section that is open began at an opening line, and has kept all lines since then. -/
theorem openAfter?_eq_some {lines : List Line} {s : Open} (h : openAfter? lines = some s) :
    ∃ (d : Delimiter) (first : List Line) (opener : Line) (seen : List Line),
      lines = first ++ opener :: seen ∧ d.Opens opener s.name ∧ d.StaysOpen seen ∧
        s = d.opened s.name seen := by
  -- By induction on the lines: the last one opens the section, or is added to what it has kept.
  induction lines using List.reverseRecOn generalizing s with
  | nil => cases h
  | append_singleton lines line ih =>
    rw [openAfter?_concat] at h
    rcases hbefore : openAfter? lines with _ | t
    · rw [hbefore, advance, Option.map_eq_some_iff] at h
      obtain ⟨⟨name, form⟩, hline, rfl⟩ := h
      obtain ⟨d, rfl⟩ := opening?_eq_some hline
      exact ⟨d, lines, line, [], rfl, (opening?_eq_some_iff d line name).1 hline, d.staysOpen_nil,
        rfl⟩
    · obtain ⟨d, first, opener, seen, rfl, hopens, hstays, ht⟩ := ih hbefore
      rw [hbefore, advance, Option.map_eq_some_iff] at h
      obtain ⟨form, hform, rfl⟩ := h
      have htform : t.form = d.formAfter seen := by rw [ht]; rfl
      have htlines : t.lines = seen.reverse := by rw [ht]; rfl
      rw [htform] at hform
      by_cases hclosed : d.ClosedBy seen line
      · rw [(after?_formAfter hstays line).1 hclosed] at hform
        cases hform
      · rw [(after?_formAfter hstays line).2 hclosed] at hform
        cases hform
        refine ⟨d, first, opener, seen ++ [line], by simp, hopens,
          (d.staysOpen_concat seen line).2 ⟨hstays, hclosed⟩, ?_⟩
        simp [Delimiter.opened, htlines]

/-! ## One line -/

/-- The lines that a section has kept so far, in order. -/
def Open.kept (s : Open) : List Line := s.lines.reverse

/-- The line ends the section.  A list ends at a closing bracket that stands alone, a text at the
line by which all its braces are closed. -/
def Closes (s : Open) (line : Line) : Prop :=
  match s.form with
  | .list => trim line = [']']
  | .text _ => balance (s.kept ++ [line]) ≤ 0

theorem after?_eq_none_iff {lines : List Line} {s : Open} (h : openAfter? lines = some s)
    (line : Line) : s.form.after? line = none ↔ Closes s line := by
  obtain ⟨d, first, opener, seen, -, -, hstays, hs⟩ := openAfter?_eq_some h
  have hcloses : Closes s line ↔ d.ClosedBy seen line := by
    rw [hs]
    cases d <;> simp [Closes, Open.kept, Delimiter.opened, Delimiter.formAfter, Delimiter.ClosedBy]
  have hform : s.form = d.formAfter seen := by rw [hs]; rfl
  rw [hcloses, hform]
  by_cases hclosed : d.ClosedBy seen line
  · exact iff_of_true ((after?_formAfter hstays line).1 hclosed) hclosed
  · rw [(after?_formAfter hstays line).2 hclosed]
    exact iff_of_false (Option.some_ne_none _) hclosed

/-- The line of the document that follows the lines `before` is read while the section is open. -/
structure ReadInside (text : List Char) (before : List Line) (s : Open) (line : Line)
    (after : List Line) : Prop where
  cut : splitLines text = before ++ line :: after
  isOpen : openAfter? before = some s

/-- The section that is open after the lines `before` has the line in its place. -/
def KeptAt (text : List Char) (before : List Line) (s : Open) (line : Line) : Prop :=
  ∃ more later, scan text = endedIn none before ++ ⟨s.name, s.kept ++ line :: more⟩ :: later

/-- The section that is open after the lines `before` has no more lines than these, and what follows
the next line is read on its own. -/
def EndsAt (text : List Char) (before : List Line) (s : Open) (after : List Line) : Prop :=
  scan text = endedIn none before ++ ⟨s.name, s.kept⟩ :: scanLines none after

variable {text : List Char} {before after : List Line} {s : Open} {line : Line}

theorem KeptAt.not_endsAt (hkept : KeptAt text before s line) : ¬ EndsAt text before s after := by
  intro hends
  obtain ⟨more, later, hscan⟩ := hkept
  rw [EndsAt, hscan, List.append_cancel_left_eq] at hends
  simp at hends

/-- A line that does not end the open section is kept in it; one that does is not kept. -/
theorem kept_or_ends (h : ReadInside text before s line after) :
    (¬ Closes s line → KeptAt text before s line) ∧
      (Closes s line → EndsAt text before s after) := by
  have hscan : scan text = endedIn none before ++ scanLines (some s) (line :: after) := by
    rw [scan, h.cut, scanLines_append, ← h.isOpen]
    rfl
  rw [scanLines_cons] at hscan
  rw [← after?_eq_none_iff h.isOpen line]
  constructor
  · intro hopen
    obtain ⟨form, hform⟩ := Option.ne_none_iff_exists'.1 hopen
    obtain ⟨more, later, hrest⟩ :=
      exists_scanLines_some { s with form := form, lines := line :: s.lines } after
    refine ⟨more, later, ?_⟩
    rw [hscan]
    simpa [ended?, advance, hform, Open.kept] using hrest
  · intro hclosed
    rw [EndsAt, hscan]
    simp [ended?, advance, hclosed, Open.close, Open.kept]

theorem keptAt_iff (h : ReadInside text before s line after) :
    KeptAt text before s line ↔ ¬ Closes s line :=
  ⟨fun hkept hcloses => hkept.not_endsAt ((kept_or_ends h).2 hcloses), (kept_or_ends h).1⟩

/-! ## The whole document -/

/-- Every line that is read while a section is open is kept in that section, or holds nothing but
a closing bracket. -/
def Retained (text : List Char) : Prop :=
  ∀ before s line after, ReadInside text before s line after →
    KeptAt text before s line ∨ trim line = ['\x7d'] ∨ trim line = [']']

theorem mem_dropWhile_of_not {p : Char → Bool} {c : Char} {line : Line} (hc : c ∈ line)
    (hp : p c = false) : c ∈ line.dropWhile p := by
  induction line with
  | nil => simp at hc
  | cons a line ih =>
    rw [List.dropWhile_cons]
    split
    · rename_i ha
      rcases List.mem_cons.1 hc with rfl | hc
      · rw [hp] at ha
        cases ha
      · exact ih hc
    · exact hc

/-- Trimming removes blank characters only. -/
theorem mem_trim {c : Char} (hc : c ∈ line) (hblank : isBlank c = false) : c ∈ trim line := by
  rw [Text.trim, Text.trimEnd, Text.dropEndWhile, List.mem_reverse]
  apply mem_dropWhile_of_not _ hblank
  rw [List.mem_reverse]
  exact mem_dropWhile_of_not hc hblank

/-- The braces of an open text section do not balance. -/
theorem balance_kept_pos (h : openAfter? before = some s) (hform : s.form ≠ .list) :
    0 < balance s.kept := by
  obtain ⟨d, first, opener, seen, -, -, hstays, hs⟩ := openAfter?_eq_some h
  have hkept : s.kept = seen := by
    rw [hs]
    simp [Open.kept, Delimiter.opened]
  rw [hkept]
  cases d with
  | brace => exact hstays seen (List.prefix_refl seen)
  | bracket => exact absurd (by rw [hs]; rfl) hform

/-- A lone closing bracket ends lists only. -/
theorem not_closes_of_bracket (h : openAfter? before = some s) (hform : s.form ≠ .list)
    (hline : trim line = [']']) : 0 < balance (s.kept ++ [line]) := by
  have hpos := balance_kept_pos h hform
  have hbrace : line.count '\x7d' = 0 := by
    rw [List.count_eq_zero]
    intro hmem
    have htrim := mem_trim hmem (by decide)
    rw [hline] at htrim
    simp at htrim
  rw [balance_concat]
  omega

theorem closes_text_iff (hform : s.form ≠ .list) :
    Closes s line ↔ balance (s.kept ++ [line]) ≤ 0 := by
  unfold Closes
  split
  · contradiction
  · rfl

/-- A line that is read while a section is open is kept exactly if it does not end the section.
Lines are lost besides lone brackets exactly if the braces of some section balance at a line with
other characters, which cannot happen where no such line closes more braces than it opens. -/
theorem retained_iff (text : List Char) :
    (∀ before s line after, ReadInside text before s line after →
      (KeptAt text before s line ↔ ¬ Closes s line) ∧
        (EndsAt text before s after ↔ Closes s line)) ∧
    (Retained text ↔ ∀ before s line after, ReadInside text before s line after →
      s.form ≠ .list → balance (s.kept ++ [line]) ≤ 0 → trim line = ['\x7d']) ∧
    ((∀ line ∈ splitLines text, trim line = ['\x7d'] ∨ line.count '\x7d' ≤ line.count '\x7b') →
      Retained text) := by
  have hexact : Retained text ↔ ∀ before s line after, ReadInside text before s line after →
      s.form ≠ .list → balance (s.kept ++ [line]) ≤ 0 → trim line = ['\x7d'] := by
    constructor
    · intro hretained before s line after hread hform hbalance
      rcases hretained before s line after hread with hkept | hbrace | hbracket
      · exact absurd ((closes_text_iff hform).2 hbalance) ((keptAt_iff hread).1 hkept)
      · exact hbrace
      · have hpos := not_closes_of_bracket hread.isOpen hform hbracket
        omega
    · intro hclosers before s line after hread
      -- A line that closes nothing is kept, and one that closes a list is a lone bracket.
      by_cases hcloses : Closes s line
      · right
        by_cases hform : s.form = .list
        · right
          unfold Closes at hcloses
          rwa [hform] at hcloses
        · left
          exact hclosers before s line after hread hform ((closes_text_iff hform).1 hcloses)
      · left
        exact (keptAt_iff hread).2 hcloses
  refine ⟨fun before s line after hread => ⟨keptAt_iff hread, ?_⟩, hexact, ?_⟩
  · constructor
    · intro hends
      by_contra hopen
      exact ((keptAt_iff hread).2 hopen).not_endsAt hends
    · exact (kept_or_ends hread).2
  · intro hlines
    refine hexact.2 fun before s line after hread hform hbalance => ?_
    have hpos := balance_kept_pos hread.isOpen hform
    rw [balance_concat] at hbalance
    rcases hlines line (by rw [hread.cut]; simp) with hbrace | hcount
    · exact hbrace
    · omega

/-- The document of a body with a closing brace in quotes. -/
def quotedBrace : List Char := "body:json \x7b\n  \x7b\"a\": \"\x7d\"\x7d\n\x7d\n".toList

/-- The braces of the section balance at the one line of the body, which is lost. -/
theorem not_retained_quoted : ¬ Retained quotedBrace ∧ scan quotedBrace = [⟨"body:json", []⟩] := by
  have hscan : scan quotedBrace = [⟨"body:json", []⟩] := by decide +kernel
  refine ⟨fun hretained => ?_, hscan⟩
  have hread : ReadInside quotedBrace ["body:json \x7b".toList] ⟨"body:json", .text 1, []⟩
      "  \x7b\"a\": \"\x7d\"\x7d".toList ["\x7d".toList] :=
    ⟨by decide +kernel, by decide +kernel⟩
  rcases hretained _ _ _ _ hread with ⟨more, later, hkept⟩ | hbrace | hbracket
  · rw [hscan] at hkept
    simp [endedIn, ended?, Open.kept] at hkept
  · exact absurd hbrace (by decide +kernel)
  · exact absurd hbracket (by decide +kernel)

end Courier.Section
