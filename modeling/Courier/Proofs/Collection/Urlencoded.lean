import Courier.Collection.Request
import Courier.Proofs.Text.Block
import Courier.Request.Document

/-!
# Url-encoded bodies

The lines of a url-encoded body are read twice: as a form when the document is read, and once more
when the request is put into a collection, from the text of the body, which is what remains of the
lines without their indentation.  The two readings are shaped differently.  `Pair.ofLine?` refuses
lines that are no pairs, and `urlencodedEntry` takes every line for one.

`entries_urlencoded_agree` says that they find the same entries, wherever every line that is not
blank holds a pair, and none of the values names a file.  The step is `says_urlencodedEntry`, for
one line; that the lines are the same is `Text.filter_trim_splitOn_blockText`.
-/

namespace Courier.Collection

open Text (trim cutAt cutAtD splitOn blockText)
open Request (filePath? readEntry readForm readBody)

/-! ## Lines of forms -/

/-- The value names a file. -/
def NamesFile (value : String) : Prop :=
  ∃ path, value.toList = "@file(".toList ++ path ++ [')']

/-- The line is blank, or it holds a pair with a text for its value. -/
def IsFormLine (line : Line) : Prop :=
  trim line = [] ∨ ∃ p, Pair.ofLine? line = some p ∧ ¬ NamesFile p.value

theorem filePath?_eq_none {value : String} (h : ¬ NamesFile value) :
    filePath? value.toList = none := by
  unfold filePath?
  split
  · rename_i hform
    rw [Bool.and_eq_true, Bool.and_eq_true, List.isPrefixOf_iff_prefix, decide_eq_true_eq] at hform
    obtain ⟨⟨⟨rest, hrest⟩, hlast⟩, -⟩ := hform
    rcases List.eq_nil_or_concat rest with hnil | ⟨path, c, hconcat⟩
    · rw [← hrest, hnil] at hlast
      exact absurd hlast (by decide)
    · rw [List.concat_eq_append] at hconcat
      rw [← hrest, hconcat, ← List.append_assoc, List.getLast?_concat, Option.some.injEq] at hlast
      refine absurd ⟨path, ?_⟩ h
      rw [← hrest, hconcat, hlast, List.append_assoc]
  · rfl

theorem readEntry_of_text {p : Pair} (h : ¬ NamesFile p.value) :
    readEntry p = ⟨p.key, p.value, .text, p.enabled⟩ := by
  rw [readEntry, filePath?_eq_none h]

/-- A blank line holds no pair. -/
theorem ofLine?_of_blank {line : Line} (h : trim line = []) : Pair.ofLine? line = none := by
  rw [Pair.ofLine?, h]
  rfl

/-- The parts of a line that holds a pair. -/
theorem ofLine?_eq_some {line : Line} {p : Pair} (h : Pair.ofLine? line = some p) :
    ∃ before after, cutAt ':' (trim line) = (before, some after) ∧
      p = ⟨String.ofList (Pair.readKey (trim before)).1, String.ofList (trim after),
        (Pair.readKey (trim before)).2⟩ := by
  unfold Pair.ofLine? at h
  split at h
  · cases h
  · rename_i before after hcut
    refine ⟨before, after, hcut, ?_⟩
    dsimp only at h
    split at h
    · cases h
    · exact (Option.some.inj h).symm

/-! ## Two readings of a line -/

/-- An entry of a url-encoded body says the same as an entry of a form. -/
structure Says (entry : Json) (e : FormEntry) : Prop where
  key : entry.get? "key" = some (.string e.key)
  value : entry.get? "value" = some (.string e.value)
  disabled_iff : entry.get? "disabled" = some (.bool true) ↔ e.enabled = false

/-- A line that holds a pair is read in the same way from a form and from a text. -/
theorem says_urlencodedEntry {line : Line} {p : Pair} (h : Pair.ofLine? line = some p)
    (htext : ¬ NamesFile p.value) : Says (urlencodedEntry (trim line)) (readEntry p) := by
  rw [readEntry_of_text htext]
  obtain ⟨before, after, hcut, rfl⟩ := ofLine?_eq_some h
  have hcutD : cutAtD ':' (trim line) = (before, after) := by
    rw [cutAtD, hcut]
    rfl
  by_cases hoff : ∃ key, trim before = '~' :: key
  · obtain ⟨key, hkey⟩ := hoff
    simp only [urlencodedEntry, hcutD, hkey]
    exact ⟨rfl, rfl, ⟨fun _ => rfl, fun _ => rfl⟩⟩
  · have hon : Pair.readKey (trim before) = (trim before, true) := by
      unfold Pair.readKey
      split
      · exact absurd ⟨_, ‹_›⟩ hoff
      · rfl
    simp only [urlencodedEntry, hcutD, hon]
    split
    · exact absurd ⟨_, ‹_›⟩ hoff
    · refine ⟨rfl, rfl, ⟨fun hdisabled => ?_, fun henabled => ?_⟩⟩
      · cases hdisabled
      · cases henabled

/-- The lines of a form, read one after the other in both ways. -/
theorem forall₂_says {lines : List Line} (h : ∀ line ∈ lines, IsFormLine line) :
    List.Forall₂ Says (((lines.map trim).filter (!·.isEmpty)).map urlencodedEntry)
      (readForm lines) := by
  rw [readForm, Pair.ofLines]
  induction lines with
  | nil => exact .nil
  | cons line lines ih =>
    have hrest := ih fun other hother => h other (List.mem_cons_of_mem _ hother)
    rw [List.map_cons]
    rcases h line List.mem_cons_self with hblank | ⟨p, hp, htext⟩
    · rw [List.filter_cons_of_neg (by simp [hblank]),
        List.filterMap_cons_none (ofLine?_of_blank hblank)]
      exact hrest
    · have hne : trim line ≠ [] := by
        intro hblank
        rw [ofLine?_of_blank hblank] at hp
        cases hp
      rw [List.filter_cons_of_pos (by simpa using hne), List.filterMap_cons_some hp, List.map_cons,
        List.map_cons]
      exact .cons (says_urlencodedEntry hp htext) hrest

/-! ## Bodies -/

/-- The entries that are read from the text of a block are those of the form that is read from its
lines, one by one; and so the body of a request has, in a collection, the entries of its form. -/
theorem entries_urlencoded_agree {lines : List Line} (hlines : ∀ line ∈ lines, '\n' ∉ line)
    (hform : ∀ line ∈ lines, IsFormLine line) :
    List.Forall₂ Says (urlencodedEntries (blockText lines)) (readForm lines) ∧
    ∀ name, Section.variantIn BodyMode.variants .other .none name = .formUrlencoded →
      ∃ entries form,
        bodyJson (readBody ⟨name, lines⟩) =
          .object [("mode", .string "urlencoded"), ("urlencoded", .array entries)] ∧
        (readBody ⟨name, lines⟩).form = some form ∧ List.Forall₂ Says entries form := by
  have hagree : List.Forall₂ Says (urlencodedEntries (blockText lines)) (readForm lines) := by
    rw [urlencodedEntries, Text.filter_trim_splitOn_blockText hlines]
    exact forall₂_says hform
  refine ⟨hagree, fun name hmode => ?_⟩
  refine ⟨urlencodedEntries (blockText lines), readForm lines, ?_, ?_, hagree⟩
  · simp only [readBody, hmode, Request.readText, bodyJson, String.toList_ofList]
    rfl
  · simp only [readBody, hmode]

/-- The lines of a form with blank lines, mixed indentation, a colon in a value, and entries that
are switched off. -/
def mixedForm : List Line :=
  ["\t".toList, "\t a : x:y ".toList, "\u00a0".toList, "\t  ~ b:".toList, " \t~c :@file".toList]

theorem entries_urlencoded_agree_mixed :
    (∀ line ∈ mixedForm, '\n' ∉ line) ∧ (∀ line ∈ mixedForm, IsFormLine line) ∧
    List.Forall₂ Says (urlencodedEntries (blockText mixedForm))
      [⟨"a", "x:y", .text, true⟩, ⟨"b", "", .text, false⟩, ⟨"c", "@file", .text, false⟩] ∧
    ∃ entries form,
      bodyJson (readBody ⟨"body:form-urlencoded", mixedForm⟩) =
        .object [("mode", .string "urlencoded"), ("urlencoded", .array entries)] ∧
      (readBody ⟨"body:form-urlencoded", mixedForm⟩).form = some form ∧
      List.Forall₂ Says entries form := by
  have hlines : ∀ line ∈ mixedForm, '\n' ∉ line := by decide
  have htext : ∀ value : String, value.toList.getLast? ≠ some ')' → ¬ NamesFile value := by
    rintro value hlast ⟨path, hpath⟩
    rw [hpath, List.getLast?_concat] at hlast
    exact hlast rfl
  have hform : ∀ line ∈ mixedForm, IsFormLine line := by
    intro line hline
    simp only [mixedForm, List.mem_cons, List.not_mem_nil, or_false] at hline
    rcases hline with rfl | rfl | rfl | rfl | rfl
    · exact .inl (by decide)
    · exact .inr ⟨⟨"a", "x:y", true⟩, by decide +kernel, htext _ (by decide +kernel)⟩
    · exact .inl (by decide)
    · exact .inr ⟨⟨"b", "", false⟩, by decide +kernel, htext _ (by decide +kernel)⟩
    · exact .inr ⟨⟨"c", "@file", false⟩, by decide +kernel, htext _ (by decide +kernel)⟩
  have hread : readForm mixedForm =
      [⟨"a", "x:y", .text, true⟩, ⟨"b", "", .text, false⟩, ⟨"c", "@file", .text, false⟩] := by
    decide +kernel
  obtain ⟨hagree, hbody⟩ := entries_urlencoded_agree hlines hform
  rw [hread] at hagree
  exact ⟨hlines, hform, hagree, hbody "body:form-urlencoded" (by decide +kernel)⟩

end Courier.Collection
