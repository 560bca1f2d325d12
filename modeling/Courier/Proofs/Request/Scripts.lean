import Courier.Proofs.Request.Slots
import Courier.Proofs.Section.Names
import Courier.Proofs.Text.Cut

/-!
# Test scripts

Sections of three names hold scripts that run after the response.  They have two slots, since those
of one name run before the others, and of each slot the last section is kept.

* `joined?` puts the texts of sections together; by `splitOn_of_joined?`, the lines of the whole are
  the lines of the sections, in their order.
* `readTestScript_eq_joined?`: the test script is put together from the kept sections.
* `testScript_outcome`: what the test script of a request holds, and that no section is missing in
  it exactly if no slot is repeated.  `not_holdsAll_replaced` shows a document of which a script is
  lost.
-/

namespace Courier

namespace Section

variable {s : Section}

theorem slot?_eq_postResponse_iff :
    s.slot? = some .postResponse ↔ s.kind = .testScript ∧ s.name = "script:post-response" := by
  unfold slot?
  split <;> simp_all

theorem slot?_eq_tests_iff :
    s.slot? = some .tests ↔ s.kind = .testScript ∧ s.name ≠ "script:post-response" := by
  unfold slot?
  split <;> simp_all

/-- The lines of the text of a section. -/
def textLines (s : Section) : List Line := Text.splitOn '\n' (Text.blockText s.lines)

theorem textLines_ne_nil (s : Section) : s.textLines ≠ [] := Text.splitOn_ne_nil '\n' _

theorem textLines_infix {sections : List Section} (h : s ∈ sections) :
    s.textLines <:+: sections.flatMap textLines := by
  obtain ⟨before, after, rfl⟩ := List.append_of_mem h
  rw [List.flatMap_append, List.flatMap_cons]
  exact ⟨before.flatMap textLines, after.flatMap textLines, by simp⟩

/-- A text has a line at least. -/
theorem length_le_length_textLines (sections : List Section) :
    sections.length ≤ (sections.flatMap textLines).length := by
  induction sections with
  | nil => exact Nat.le_refl 0
  | cons s sections ih =>
    have hpos := List.length_pos_iff.2 s.textLines_ne_nil
    rw [List.flatMap_cons, List.length_append, List.length_cons]
    omega

end Section

namespace Request

open Section (textLines)
open Text (blockText joinWith splitOn)

variable {sections : List Section} {slot : Slot} {s : Section} {text : List Char} {r : Request}

/-! ## Texts of several sections -/

/-- The texts of the sections, one after the other. -/
def joined? : List Section → Option String
  | [] => none
  | sections => some (String.ofList (joinWith ['\n'] (sections.map fun s => blockText s.lines)))

theorem joined?_eq_none_iff : joined? sections = none ↔ sections = [] := by
  cases sections with
  | nil => exact iff_of_true rfl rfl
  | cons s sections => exact iff_of_false nofun nofun

/-- The lines of the whole are those of the sections. -/
theorem splitOn_of_joined? {script : String} (h : joined? sections = some script) :
    splitOn '\n' script.toList = sections.flatMap textLines := by
  cases sections with
  | nil => cases h
  | cons s sections =>
    cases h
    rw [String.toList_ofList, Text.splitOn_joinWith_eq_flatMap (by simp), List.flatMap_map]
    rfl

/-! ## The last section of a slot -/

theorem mem_inSlot : s ∈ inSlot slot sections ↔ s ∈ sections ∧ s.slot? = some slot := by
  simp [inSlot]

/-- The last section of a slot, if it has one. -/
def lastOf (slot : Slot) (sections : List Section) : List Section :=
  (inSlot slot sections).getLast?.toList

/-- The slot has one section at most. -/
def Unrepeated (slot : Slot) (sections : List Section) : Prop :=
  (inSlot slot sections).length ≤ 1

theorem dropLast_append_lastOf (slot : Slot) (sections : List Section) :
    (inSlot slot sections).dropLast ++ lastOf slot sections = inSlot slot sections := by
  rw [lastOf]
  rcases List.eq_nil_or_concat (inSlot slot sections) with hnil | ⟨init, last, hconcat⟩
  · rw [hnil]
    rfl
  · rw [hconcat]
    simp

theorem Unrepeated.lastOf_eq (h : Unrepeated slot sections) :
    lastOf slot sections = inSlot slot sections := by
  have hlength : (inSlot slot sections).dropLast.length = 0 := by
    rw [List.length_dropLast]
    unfold Unrepeated at h
    omega
  have happend := dropLast_append_lastOf slot sections
  rwa [List.length_eq_zero_iff.1 hlength, List.nil_append] at happend

/-- Each section before the last one of a slot has lines of its own. -/
theorem length_textLines_lastOf (slot : Slot) (sections : List Section) :
    ((lastOf slot sections).flatMap textLines).length + ((inSlot slot sections).length - 1) ≤
      ((inSlot slot sections).flatMap textLines).length := by
  have hbefore := Section.length_le_length_textLines (inSlot slot sections).dropLast
  rw [List.length_dropLast] at hbefore
  have hsplit := congrArg (fun rest => (rest.flatMap textLines).length)
    (dropLast_append_lastOf slot sections)
  simp only [List.flatMap_append, List.length_append] at hsplit
  omega

/-! ## The sections of test scripts -/

/-- The names of the sections that hold test scripts. -/
def testNames : List String := ["script:post-response", "script:test", "tests"]

/-- The sections of test scripts, in the order in which they run. -/
def testSections (sections : List Section) : List Section :=
  inSlot .postResponse sections ++ inSlot .tests sections

/-- Those that are kept. -/
def keptTestSections (sections : List Section) : List Section :=
  lastOf .postResponse sections ++ lastOf .tests sections

theorem mem_testSections : s ∈ testSections sections ↔ s ∈ sections ∧ s.name ∈ testNames := by
  rw [testNames, ← Section.kind_eq_testScript_iff, testSections, List.mem_append, mem_inSlot,
    mem_inSlot, Section.slot?_eq_postResponse_iff, Section.slot?_eq_tests_iff]
  tauto

/-- Something is kept of every slot that has a section. -/
theorem keptTestSections_eq_nil_iff :
    keptTestSections sections = [] ↔ ∀ s ∈ sections, s.name ∉ testNames := by
  have hkept : keptTestSections sections = [] ↔ testSections sections = [] := by
    simp [keptTestSections, testSections, lastOf]
  rw [hkept, List.eq_nil_iff_forall_not_mem]
  simp only [mem_testSections, not_and]

theorem keptTestSections_of_unrepeated (hpost : Unrepeated .postResponse sections)
    (htests : Unrepeated .tests sections) : keptTestSections sections = testSections sections := by
  rw [keptTestSections, testSections, hpost.lastOf_eq, htests.lastOf_eq]

theorem readTestScript_eq_joined? (sections : List Section) :
    readTestScript sections = joined? (keptTestSections sections) := by
  have hpost : (sectionsOf .testScript sections).filter (·.name = "script:post-response") =
      inSlot .postResponse sections := by
    rw [sectionsOf, List.filter_filter, inSlot]
    exact List.filter_congr fun s _ => by simp [Section.slot?_eq_postResponse_iff, and_comm]
  have htests : (sectionsOf .testScript sections).filter (·.name ≠ "script:post-response") =
      inSlot .tests sections := by
    rw [sectionsOf, List.filter_filter, inSlot]
    exact List.filter_congr fun s _ => by simp [Section.slot?_eq_tests_iff, and_comm]
  rw [readTestScript, lastText?, lastText?, hpost, htests, keptTestSections, lastOf, lastOf]
  rcases (inSlot .postResponse sections).getLast? with _ | first <;>
    rcases (inSlot .tests sections).getLast? with _ | second
  · rfl
  · rfl
  · rfl
  · simp [joined?, joinWith, readText, String.ofList_append, String.append_assoc]

/-- The kept sections have as many lines as all of them only if they are all of them. -/
theorem joined?_keptTestSections_iff :
    joined? (keptTestSections sections) = joined? (testSections sections) ↔
      Unrepeated .postResponse sections ∧ Unrepeated .tests sections := by
  constructor
  · intro h
    have hlines : (keptTestSections sections).flatMap textLines =
        (testSections sections).flatMap textLines := by
      rcases hall : joined? (testSections sections) with _ | script
      · rw [hall] at h
        rw [joined?_eq_none_iff.1 h, joined?_eq_none_iff.1 hall]
      · rw [hall] at h
        rw [← splitOn_of_joined? h, ← splitOn_of_joined? hall]
    -- Equal lines are equally many, and a section that is not kept would add some.
    have hlength := congrArg List.length hlines
    rw [keptTestSections, testSections, List.flatMap_append, List.flatMap_append,
      List.length_append, List.length_append] at hlength
    have hpost := length_textLines_lastOf .postResponse sections
    have htests := length_textLines_lastOf .tests sections
    unfold Unrepeated
    omega
  · rintro ⟨hpost, htests⟩
    rw [keptTestSections_of_unrepeated hpost htests]

/-! ## What the test script holds -/

/-- There is a script exactly if there are sections of test scripts, and it has the text of each of
them as lines of its own, those that run after the response before the others. -/
structure HoldsAll (sections : List Section) (script? : Option String) : Prop where
  none_iff : script? = none ↔ ∀ s ∈ sections, s.name ∉ testNames
  holds : ∀ script, script? = some script → ∃ first second,
    splitOn '\n' script.toList = first ++ second ∧ ∀ s ∈ sections, s.name ∈ testNames →
      s.textLines <:+: if s.name = "script:post-response" then first else second

theorem holdsAll_of_unrepeated (hpost : Unrepeated .postResponse sections)
    (htests : Unrepeated .tests sections) :
    HoldsAll sections (joined? (keptTestSections sections)) := by
  constructor
  · rw [joined?_eq_none_iff, keptTestSections_eq_nil_iff]
  · intro script hscript
    refine ⟨(inSlot .postResponse sections).flatMap textLines,
      (inSlot .tests sections).flatMap textLines, ?_, ?_⟩
    · rw [splitOn_of_joined? hscript, keptTestSections_of_unrepeated hpost htests, testSections,
        List.flatMap_append]
    · intro s hs hname
      have hkind : s.kind = .testScript := Section.kind_eq_testScript_iff.2 hname
      split
      · rename_i hfirst
        have hslot := Section.slot?_eq_postResponse_iff.2 ⟨hkind, hfirst⟩
        exact Section.textLines_infix (mem_inSlot.2 ⟨hs, hslot⟩)
      · rename_i hsecond
        have hslot := Section.slot?_eq_tests_iff.2 ⟨hkind, hsecond⟩
        exact Section.textLines_infix (mem_inSlot.2 ⟨hs, hslot⟩)

/-- The test script is put together from the last section of each of the two slots.  It is that of
all sections exactly if no slot has another one, and it then holds all that it should. -/
theorem testScript_outcome (h : ofText text = .ok r) :
    let sections := Section.scan text
    (r.testScript = none ↔ ∀ s ∈ sections, s.name ∉ testNames) ∧
    (∀ script, r.testScript = some script →
      splitOn '\n' script.toList = (keptTestSections sections).flatMap textLines) ∧
    (r.testScript = joined? (testSections sections) ↔
      Unrepeated .postResponse sections ∧ Unrepeated .tests sections) ∧
    (Unrepeated .postResponse sections → Unrepeated .tests sections →
      HoldsAll sections r.testScript) := by
  intro sections
  obtain ⟨-, -, -, -, hread⟩ := ofSections_eq_ok h
  have hscript : r.testScript = joined? (keptTestSections sections) :=
    hread.trans (readTestScript_eq_joined? sections)
  rw [hscript]
  refine ⟨?_, fun script => splitOn_of_joined?, joined?_keptTestSections_iff,
    holdsAll_of_unrepeated⟩
  rw [joined?_eq_none_iff, keptTestSections_eq_nil_iff]

/-- A section of each of the two slots is held. -/
theorem testScript_outcome_scripted :
    ∃ r, ofText (Section.print scriptedSections) = .ok r ∧ HoldsAll scriptedSections r.testScript ∧
      r.testScript = some "a()\nb()" := by
  have hscan : Section.scan (Section.print scriptedSections) = scriptedSections := by
    decide +kernel
  obtain ⟨r, hr, hscript⟩ : ∃ r, ofText (Section.print scriptedSections) = .ok r ∧
      r.testScript = some "a()\nb()" := by
    rw [ofText, hscan]
    exact Outcome.exists_of_toOption_map (by decide +kernel)
  obtain ⟨-, -, hjoined, hall⟩ := testScript_outcome hr
  rw [hscan] at hjoined hall
  have hpost : Unrepeated .postResponse scriptedSections := by
    unfold Unrepeated
    decide +kernel
  have htests : Unrepeated .tests scriptedSections := by
    unfold Unrepeated
    decide +kernel
  exact ⟨r, hr, hall hpost htests, hscript⟩

/-- The sections of a document with two scripts in one slot, under the two names that it has. -/
def replacedScript : List Section := [
  ⟨"meta", ["  name: ping".toList, "  type: http".toList]⟩,
  ⟨"get", ["  url: http://h".toList]⟩,
  ⟨"script:test", ["  a();".toList]⟩,
  ⟨"tests", ["  b();".toList]⟩]

/-- The first of the two scripts is lost. -/
theorem not_holdsAll_replaced :
    ∃ r, ofText (Section.print replacedScript) = .ok r ∧ r.testScript = some "b();" ∧
      ¬ HoldsAll replacedScript r.testScript := by
  have hscan : Section.scan (Section.print replacedScript) = replacedScript := by decide +kernel
  obtain ⟨r, hr, hscript⟩ : ∃ r, ofSections replacedScript = .ok r ∧
      r.testScript = some "b();" := Outcome.exists_of_toOption_map (by decide +kernel)
  rw [ofText, hscan]
  refine ⟨r, hr, hscript, fun hall => ?_⟩
  obtain ⟨first, second, hlines, hheld⟩ := hall.holds "b();" hscript
  have hinfix := hheld ⟨"script:test", ["  a();".toList]⟩ (by decide) (by decide)
  have hmem : "a();".toList ∈ first ++ second := by
    have hsecond : ["a();".toList] <:+: second := hinfix
    exact List.mem_append_right first (hsecond.subset List.mem_cons_self)
  rw [← hlines] at hmem
  exact absurd hmem (by decide +kernel)

end Request

end Courier
