import Courier.Proofs.Section.Printer
import Courier.Proofs.Text.Cut
import Courier.Proofs.Text.Trim
import Courier.Section.Pair
import Mathlib.Tactic.Common

/-!
# Lines written from pairs

`Pair.line` writes a pair as its key, a colon and its value, with a tilde before the key when the
pair is switched off.  `Pair.Printable` says which pairs can be read from their line again;
`ofLine?_line` and `ofLines_lines` say that they are.
-/

namespace Courier.Pair

open Text (trim isBlank isIndent isLineBreak cutAt)

/-- The pair as it is written. -/
def line (p : Pair) : Line :=
  (if p.enabled then [] else ['~']) ++ p.key.toList ++ ": ".toList ++ p.value.toList

/-- A key that ends at the first colon and is not taken for a switched off one. -/
def IsKey (key : String) : Prop :=
  key ≠ "" ∧ trim key.toList = key.toList ∧ ':' ∉ key.toList ∧ key.toList.head? ≠ some '~' ∧
    ∀ c ∈ key.toList, isLineBreak c = false

instance : DecidablePred IsKey := fun key => inferInstanceAs (Decidable
  (key ≠ "" ∧ trim key.toList = key.toList ∧ ':' ∉ key.toList ∧ key.toList.head? ≠ some '~' ∧
    ∀ c ∈ key.toList, isLineBreak c = false))

/-- The pair can be written on one line, and read from it. -/
@[mk_iff]
structure Printable (p : Pair) : Prop where
  key : IsKey p.key
  value_trim : trim p.value.toList = p.value.toList
  value_breaks : ∀ c ∈ p.value.toList, isLineBreak c = false
  balanced : p.line.count '\x7b' = p.line.count '\x7d'

instance : DecidablePred Printable := fun p => decidable_of_iff' _ (printable_iff p)

variable {p : Pair}

/-- What stands before the colon of a line. -/
def front (p : Pair) : List Char := (if p.enabled then [] else ['~']) ++ p.key.toList

theorem Printable.key_toList_ne (h : p.Printable) : p.key.toList ≠ [] := by
  simpa using h.key.1

theorem front_ne (h : p.Printable) : p.front ≠ [] := by
  rw [front]
  exact List.append_ne_nil_of_right_ne_nil _ h.key_toList_ne

theorem Printable.trim_front (h : p.Printable) : trim p.front = p.front := by
  rw [front]
  split_ifs
  · exact h.key.2.1
  · have htilde : trim ['~'] = ['~'] := by decide
    simpa using Text.trim_append_append htilde h.key.2.1 (by simp) h.key_toList_ne []

/-- The text of a line without blank characters at its ends.  An empty value leaves the colon at the
end. -/
theorem Printable.trim_line (h : p.Printable) :
    ∃ after, trim p.line = p.front ++ ':' :: after ∧ trim after = p.value.toList := by
  have hline : p.line = p.front ++ [':', ' '] ++ p.value.toList := rfl
  by_cases hvalue : p.value.toList = []
  · refine ⟨[], ?_, by rw [hvalue]; rfl⟩
    have hcolon : trim [':'] = [':'] := by decide
    have htrim := Text.trim_append_append h.trim_front hcolon (front_ne h) (by simp) []
    rw [List.append_nil] at htrim
    have hline' : p.line = p.front ++ [':'] ++ [' '] := by
      rw [hline, hvalue]
      simp
    rw [hline', Text.trim_append_blank htrim (by decide)]
  · refine ⟨' ' :: p.value.toList, ?_, ?_⟩
    · rw [hline, Text.trim_append_append h.trim_front h.value_trim (front_ne h) hvalue]
      simp
    · rw [← List.singleton_append, Text.trim_append_of_blank (by decide), h.value_trim]

theorem Printable.readKey_front (h : p.Printable) :
    readKey p.front = (p.key.toList, p.enabled) := by
  rw [front]
  split_ifs with henabled
  · rw [List.nil_append, readKey, henabled]
    intro rest hrest
    exact h.key.2.2.2.1 (by rw [hrest]; rfl)
  · rw [List.singleton_append, readKey, h.key.2.1]
    simp [henabled]

/-- A written pair is read from its line. -/
theorem ofLine?_line (h : p.Printable) {blank : Line} (hblank : ∀ c ∈ blank, isBlank c = true) :
    ofLine? (blank ++ p.line) = some p := by
  obtain ⟨after, hline, hafter⟩ := h.trim_line
  have hcolon : ':' ∉ p.front := by
    rw [front]
    split_ifs
    · exact h.key.2.2.1
    · simpa using h.key.2.2.1
  have hkey : p.key.toList.isEmpty = false := by simpa using h.key.1
  rw [ofLine?, Text.trim_append_of_blank hblank, hline, Text.cutAt_append_cons hcolon]
  simp only [h.trim_front, h.readKey_front, hkey, hafter, String.ofList_toList,
    Bool.false_eq_true, if_false]

/-- Written pairs are read from their lines, in order. -/
theorem ofLines_lines {pairs : List Pair} (h : ∀ p ∈ pairs, p.Printable) {blank : Line}
    (hblank : ∀ c ∈ blank, isBlank c = true) :
    ofLines ((pairs.map line).map (blank ++ ·)) = pairs := by
  rw [ofLines, List.map_map, List.filterMap_map]
  induction pairs with
  | nil => rfl
  | cons p pairs ih =>
    have hp : (ofLine? ∘ (blank ++ ·) ∘ line) p = some p :=
      ofLine?_line (h p List.mem_cons_self) hblank
    rw [List.filterMap_cons_some hp, ih fun q hq => h q (List.mem_cons_of_mem _ hq)]

/-- A written pair begins with its text. -/
theorem Printable.head?_line (h : p.Printable) :
    ∃ c, p.line.head? = some c ∧ isIndent c = false := by
  obtain ⟨c, rest, hfront⟩ := List.exists_cons_of_ne_nil (front_ne h)
  have hblank : isBlank c = false :=
    Text.isBlank_head_of_trim h.trim_front (by rw [hfront]; rfl)
  refine ⟨c, ?_, ?_⟩
  · have hline : p.line = p.front ++ (": ".toList ++ p.value.toList) := by
      rw [line, front, List.append_assoc _ ": ".toList]
    rw [hline, hfront]
    rfl
  · simp only [isIndent, Bool.or_eq_false_iff, beq_eq_false_iff_ne]
    constructor <;> rintro rfl <;> exact absurd hblank (by decide)

/-- A written pair is one line. -/
theorem Printable.line_breaks (h : p.Printable) : ∀ c ∈ p.line, isLineBreak c = false := by
  intro c hc
  rw [line, List.mem_append, List.mem_append, List.mem_append] at hc
  rcases hc with ((hc | hc) | hc) | hc
  · split_ifs at hc
    · simp at hc
    · rw [List.mem_singleton.1 hc]
      decide
  · exact h.key.2.2.2.2 c hc
  · exact (by decide : ∀ x ∈ ": ".toList, isLineBreak x = false) c hc
  · exact h.value_breaks c hc

end Courier.Pair
