import Courier.Proofs.Text.Trim
import Courier.Text.Numeral
import Mathlib.Tactic.Common

/-!
# Numerals that were written

The digits of a whole number read back as the number.  `readInteger?_toString` says so of whole
texts, under the limit on the number of digits.
-/

namespace Courier.Text

/-! ## Digits -/

/-- An ASCII digit stands for its distance from zero. -/
theorem digitValue?_of_isDigit {c : Char} (h : c.isDigit) :
    digitValue? c = some (c.toNat - '0'.toNat) := by
  have hrange := Char.isDigit_iff_toNat.1 h
  have hzero : '0'.toNat = 48 := rfl
  have hnine : '9'.toNat = 57 := rfl
  have hfind :
      digitZeros.find? (fun start => start ≤ c.toNat && c.toNat < start + 10) = some 48 := by
    rw [digitZeros, List.find?_cons_of_pos]
    simp only [Bool.and_eq_true, decide_eq_true_eq]
    omega
  rw [digitValue?, hfind]
  rfl

theorem isDecimal_of_isDigit {c : Char} (h : c.isDigit) : isDecimal c = true := by
  rw [isDecimal, digitValue?_of_isDigit h]
  rfl

theorem ne_underscore_of_isDigit {c : Char} (h : c.isDigit) : c ≠ '_' := by
  rintro rfl
  exact absurd h (by decide)

theorem isDigit_of_mem_toDigits {n : Nat} {c : Char} (h : c ∈ Nat.toDigits 10 n) : c.isDigit :=
  Nat.isDigit_of_mem_toDigits (by decide) (by decide) h

/-- A smaller number has no more digits. -/
theorem length_toDigits_le_of_lt {number count : Nat} (h : number < count) :
    (Nat.toDigits 10 number).length ≤ (Nat.toDigits 10 count).length := by
  have hpos : 0 < (Nat.toDigits 10 count).length := Nat.length_toDigits_pos
  have hcount := (Nat.length_toDigits_le_iff (by decide) hpos).1 (Nat.le_refl _)
  exact (Nat.length_toDigits_le_iff (by decide) hpos).2 (Nat.lt_trans h hcount)

/-- The value of a run of ASCII digits. -/
theorem foldl_digitValue? {digits : List Char} (h : ∀ c ∈ digits, c.isDigit) (n : Nat) :
    digits.foldl (fun n d => 10 * n + (digitValue? d).getD 0) n =
      Nat.ofDigitChars 10 digits n := by
  induction digits generalizing n with
  | nil => rfl
  | cons c digits ih =>
    rw [List.foldl_cons, Nat.ofDigitChars_cons, digitValue?_of_isDigit (h c List.mem_cons_self),
      ih fun d hd => h d (List.mem_cons_of_mem _ hd)]
    rfl

/-! ## Whole numbers -/

/-- Digits are read one after the other. -/
theorem readDigits_of_isDigit {digits : List Char} (h : ∀ c ∈ digits, c.isDigit) {value count : Nat}
    (hcount : 0 < count + digits.length) :
    readDigits value count false digits =
      some (Nat.ofDigitChars 10 digits value, count + digits.length) := by
  induction digits generalizing value count with
  | nil =>
    have hne : count ≠ 0 := by simpa [Nat.pos_iff_ne_zero] using hcount
    simp [readDigits, hne]
  | cons c digits ih =>
    have hc := h c List.mem_cons_self
    rw [readDigits, if_neg (ne_underscore_of_isDigit hc), digitValue?_of_isDigit hc,
      Nat.ofDigitChars_cons, List.length_cons]
    have hrest : ∀ d ∈ digits, d.isDigit := fun d hd => h d (List.mem_cons_of_mem _ hd)
    have hread := @ih hrest (10 * value + (c.toNat - '0'.toNat)) (count + 1) (by omega)
    rw [Nat.add_right_comm, Nat.add_assoc] at hread
    exact hread

theorem readMagnitude?_toDigits {n : Nat} (h : (Nat.toDigits 10 n).length ≤ maxNumeralDigits) :
    readMagnitude? (Nat.toDigits 10 n) = some n := by
  have hdigits : ∀ c ∈ Nat.toDigits 10 n, c.isDigit := fun _ => isDigit_of_mem_toDigits
  have hpos : 0 < (Nat.toDigits 10 n).length := Nat.length_toDigits_pos
  rw [readMagnitude?, readDigits_of_isDigit hdigits (by omega), Nat.zero_add,
    Nat.ofDigitChars_ten_toDigits]
  exact if_pos h

/-- Digits are not blank. -/
theorem isBlank_of_isDigit {c : Char} (h : c.isDigit) : isBlank c = false := by
  have hrange := Char.isDigit_iff_toNat.1 h
  have hzero : '0'.toNat = 48 := rfl
  have hnine : '9'.toNat = 57 := rfl
  simp only [isBlank, Bool.or_eq_false_iff, Bool.and_eq_false_iff, decide_eq_false_iff_not,
    beq_eq_false_iff_ne]
  omega

/-- The digits of a number, with a minus sign when the number is negative. -/
theorem toList_toString_int (n : Int) :
    (toString n).toList =
      if 0 ≤ n then Nat.toDigits 10 n.natAbs else '-' :: Nat.toDigits 10 n.natAbs := by
  rw [Int.toString_eq_repr, Int.repr_eq_if]
  split
  · rename_i h
    rw [Nat.toList_repr, show n.toNat = n.natAbs by omega]
  · rename_i h
    rw [String.toList_append, Nat.toList_repr, show (-n).toNat = n.natAbs by omega]
    rfl

/-- A number is written with digits and a minus sign. -/
theorem mem_toString_int {n : Int} {c : Char} (h : c ∈ (toString n).toList) :
    c = '-' ∨ c.isDigit := by
  rw [toList_toString_int] at h
  split at h
  · exact .inr (isDigit_of_mem_toDigits h)
  · rcases List.mem_cons.1 h with rfl | h
    · exact .inl rfl
    · exact .inr (isDigit_of_mem_toDigits h)

theorem isBlank_of_mem_toString_int {n : Int} {c : Char} (h : c ∈ (toString n).toList) :
    isBlank c = false := by
  rcases mem_toString_int h with rfl | h
  · decide
  · exact isBlank_of_isDigit h

theorem trim_toString_int (n : Int) : trim (toString n).toList = (toString n).toList := by
  exact trim_eq_self (fun c hc => isBlank_of_mem_toString_int (List.mem_of_head? hc))
    fun c hc => isBlank_of_mem_toString_int (List.mem_of_getLast? hc)

/-- A whole number of not too many digits reads back from its text. -/
theorem readInteger?_toString {n : Int}
    (h : (Nat.toDigits 10 n.natAbs).length ≤ maxNumeralDigits) :
    readInteger? (toString n).toList = some n := by
  have hread := readMagnitude?_toDigits h
  rw [readInteger?, trim_toString_int, toList_toString_int]
  split_ifs with hn
  · have hfirst : ∀ c ∈ Nat.toDigits 10 n.natAbs, c ≠ '-' ∧ c ≠ '+' := by
      intro c hc
      have hdigit := isDigit_of_mem_toDigits hc
      constructor <;> rintro rfl <;> exact absurd hdigit (by decide)
    split
    · rename_i hd
      exact absurd rfl (hfirst '-' (by simp [hd])).1
    · rename_i hd
      exact absurd rfl (hfirst '+' (by simp [hd])).2
    · rw [hread, Option.map_some]
      exact congrArg some (Int.natAbs_of_nonneg hn)
  · simp only [hread]
    have hneg : -(n.natAbs : Int) = n := by omega
    exact congrArg some hneg

end Courier.Text
