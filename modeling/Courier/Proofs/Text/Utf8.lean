import Courier.Proofs.Outcome
import Courier.Text.Utf8
import Mathlib.Tactic.Common

/-!
# Encoding and decoding undo one another

`encode_of_decode` says that octets which `decode` accepts are the encoding of the characters it
gives.  Text that is decoded piece by piece can therefore be put together on the level of octets.
`decode_encode` says that the encoding of a text is accepted, and stands for that text.
-/

namespace Courier.Text.Utf8

theorem encode_cons (c : Char) (s : List Char) :
    encode (c :: s) = String.utf8EncodeChar c ++ encode s := rfl

theorem encode_append (s t : List Char) : encode (s ++ t) = encode s ++ encode t :=
  List.flatMap_append

/-- The octets that continue a character are those from 0x80 to 0xBF. -/
theorem isContinuation_iff (b : UInt8) :
    isContinuation b = true ↔ 128 ≤ b.toNat ∧ b.toNat < 192 := by
  have hall : ∀ n : Fin 256, isContinuation (UInt8.ofNat n) = true ↔ 128 ≤ n.val ∧ n.val < 192 := by
    decide +kernel
  have hlt : b.toNat < 256 := b.toNat_lt
  simpa using hall ⟨b.toNat, hlt⟩

theorem val_ofNat {n : Nat} (h : n.isValidChar) : (Char.ofNat n).val.toNat = n := by
  rw [Char.ofNat, dif_pos h]
  rfl

theorem ofNat_eq {n : Nat} {b : UInt8} (h : n = b.toNat) : UInt8.ofNat n = b := by
  rw [h, UInt8.ofNat_toNat]

/-! ## One character -/

theorem utf8EncodeChar_one {a : UInt8} (ha : a < 0x80) :
    String.utf8EncodeChar (Char.ofNat a.toNat) = [a] := by
  have ha' : a.toNat < 128 := UInt8.lt_iff_toNat_lt.1 ha
  have hvalid : a.toNat.isValidChar := .inl (by omega)
  rw [String.utf8EncodeChar, val_ofNat hvalid, if_pos (by omega), UInt8.ofNat_toNat]

theorem utf8EncodeChar_two {a b : UInt8} (hstart : ¬ a < 0xC2) (hend : a < 0xE0)
    (hb : isContinuation b = true) :
    String.utf8EncodeChar (Char.ofNat (a.toNat % 32 * 64 + payload b)) = [a, b] := by
  have ha : 194 ≤ a.toNat := by simpa [UInt8.lt_iff_toNat_lt] using hstart
  have ha' : a.toNat < 224 := UInt8.lt_iff_toNat_lt.1 hend
  have hb' := (isContinuation_iff b).1 hb
  rw [payload]
  have hvalid : (a.toNat % 32 * 64 + b.toNat % 64).isValidChar := .inl (by omega)
  rw [String.utf8EncodeChar, val_ofNat hvalid, if_neg (by omega), if_pos (by omega)]
  rw [ofNat_eq (b := a) (by omega), ofNat_eq (b := b) (by omega)]

theorem utf8EncodeChar_three {a b c : UInt8} (hstart : ¬ a < 0xE0) (hend : a < 0xF0)
    (hb : continuesThree a b = true) (hc : isContinuation c = true) :
    String.utf8EncodeChar (Char.ofNat (a.toNat % 16 * 4096 + payload b * 64 + payload c)) =
      [a, b, c] := by
  have ha : 224 ≤ a.toNat := by simpa [UInt8.lt_iff_toNat_lt] using hstart
  have ha' : a.toNat < 240 := UInt8.lt_iff_toNat_lt.1 hend
  have hc' := (isContinuation_iff c).1 hc
  simp only [continuesThree, Bool.and_eq_true, Bool.not_eq_true', Bool.and_eq_false_iff,
    beq_eq_false_iff_ne, decide_eq_false_iff_not, isContinuation_iff, ge_iff_le,
    UInt8.lt_iff_toNat_lt, UInt8.le_iff_toNat_le, ne_eq, ← UInt8.toNat_inj, UInt8.reduceToNat] at hb
  obtain ⟨⟨hb', hoverlong⟩, hsurrogate⟩ := hb
  rw [payload, payload]
  have hvalid : (a.toNat % 16 * 4096 + b.toNat % 64 * 64 + c.toNat % 64).isValidChar := by
    rw [Nat.isValidChar]
    omega
  rw [String.utf8EncodeChar, val_ofNat hvalid, if_neg (by omega), if_neg (by omega),
    if_pos (by omega)]
  rw [ofNat_eq (b := a) (by omega), ofNat_eq (b := b) (by omega), ofNat_eq (b := c) (by omega)]

theorem utf8EncodeChar_four {a b c d : UInt8} (hstart : ¬ a < 0xF0) (hend : a < 0xF5)
    (hb : continuesFour a b = true) (hc : isContinuation c = true)
    (hd : isContinuation d = true) :
    String.utf8EncodeChar (Char.ofNat
      (a.toNat % 8 * 262144 + payload b * 4096 + payload c * 64 + payload d)) = [a, b, c, d] := by
  have ha : 240 ≤ a.toNat := by simpa [UInt8.lt_iff_toNat_lt] using hstart
  have ha' : a.toNat < 245 := UInt8.lt_iff_toNat_lt.1 hend
  have hc' := (isContinuation_iff c).1 hc
  have hd' := (isContinuation_iff d).1 hd
  simp only [continuesFour, Bool.and_eq_true, Bool.not_eq_true', Bool.and_eq_false_iff,
    beq_eq_false_iff_ne, decide_eq_false_iff_not, isContinuation_iff, ge_iff_le,
    UInt8.lt_iff_toNat_lt, UInt8.le_iff_toNat_le, ne_eq, ← UInt8.toNat_inj, UInt8.reduceToNat] at hb
  obtain ⟨⟨hb', hoverlong⟩, hbeyond⟩ := hb
  rw [payload, payload, payload]
  have hvalid : (a.toNat % 8 * 262144 + b.toNat % 64 * 4096 + c.toNat % 64 * 64 +
      d.toNat % 64).isValidChar := by
    rw [Nat.isValidChar]
    omega
  rw [String.utf8EncodeChar, val_ofNat hvalid, if_neg (by omega), if_neg (by omega),
    if_neg (by omega)]
  rw [ofNat_eq (b := a) (by omega), ofNat_eq (b := b) (by omega), ofNat_eq (b := c) (by omega),
    ofNat_eq (b := d) (by omega)]

/-! ## Whole texts -/

theorem encode_of_decodeFrom {position : Nat} {octets : List UInt8} {s : List Char}
    (h : decodeFrom position octets = .ok s) : encode s = octets := by
  fun_induction decodeFrom position octets generalizing s
  case case1 =>
    cases h
    rfl
  case case2 position a rest hascii ih =>
    obtain ⟨tail, htail, rfl⟩ := Outcome.map_eq_ok.1 h
    rw [encode_cons, ih htail, utf8EncodeChar_one hascii, List.singleton_append]
  case case6 position a hascii hstart hend b rest hb c ih =>
    obtain ⟨tail, htail, rfl⟩ := Outcome.map_eq_ok.1 h
    have hchar := utf8EncodeChar_two hstart hend (by simpa using hb)
    rw [encode_cons, ih htail, hchar]
    rfl
  case case12 position a hascii hlate hstart hend b c rest hb hc ch ih =>
    obtain ⟨tail, htail, rfl⟩ := Outcome.map_eq_ok.1 h
    have hchar := utf8EncodeChar_three hstart hend (by simpa using hb) (by simpa using hc)
    rw [encode_cons, ih htail, hchar]
    rfl
  case case22 position a hascii hlate htwo hstart hend b c d rest hb hc hd ch ih =>
    obtain ⟨tail, htail, rfl⟩ := Outcome.map_eq_ok.1 h
    have hchar := utf8EncodeChar_four hstart hend (by simpa using hb) (by simpa using hc)
      (by simpa using hd)
    rw [encode_cons, ih htail, hchar]
    rfl
  -- What is left are the refusals.
  all_goals cases h

/-- Octets that were decoded are the encoding of what they stand for. -/
theorem encode_of_decode {octets : List UInt8} {s : List Char} (h : decode octets = .ok s) :
    encode s = octets := encode_of_decodeFrom h

/-! ## Decoding what was encoded -/

theorem toNat_ofNat_of_lt {n : Nat} (h : n < 256) : (UInt8.ofNat n).toNat = n := by
  rw [UInt8.toNat_ofNat']
  exact Nat.mod_eq_of_lt h

theorem isContinuation_ofNat (n : Nat) : isContinuation (UInt8.ofNat (n % 64 + 128)) = true := by
  rw [isContinuation_iff, toNat_ofNat_of_lt (by omega)]
  omega

theorem payload_ofNat (n : Nat) : payload (UInt8.ofNat (n % 64 + 128)) = n % 64 := by
  rw [payload, toNat_ofNat_of_lt (by omega)]
  omega

section

variable (v position : Nat) (rest : List UInt8)

theorem decodeFrom_one (h : v < 128) :
    decodeFrom position (UInt8.ofNat v :: rest) =
      (decodeFrom (position + 1) rest).map (Char.ofNat v :: ·) := by
  have ha : (UInt8.ofNat v).toNat = v := toNat_ofNat_of_lt (by omega)
  rw [decodeFrom.eq_def]
  simp only [UInt8.lt_iff_toNat_lt, ha, UInt8.reduceToNat]
  rw [if_pos h]

theorem decodeFrom_two (h : 128 ≤ v) (h' : v < 2048) :
    decodeFrom position
        (UInt8.ofNat (v / 64 % 32 + 192) :: UInt8.ofNat (v % 64 + 128) :: rest) =
      (decodeFrom (position + 2) rest).map (Char.ofNat v :: ·) := by
  have ha : (UInt8.ofNat (v / 64 % 32 + 192)).toNat = v / 64 + 192 := by
    rw [toNat_ofNat_of_lt (by omega)]
    omega
  rw [decodeFrom.eq_def]
  simp only [UInt8.lt_iff_toNat_lt, ha, UInt8.reduceToNat, isContinuation_ofNat, payload_ofNat]
  rw [if_neg (by omega), if_neg (by omega), if_pos (by omega),
    show (v / 64 + 192) % 32 * 64 + v % 64 = v by omega]
  rfl

theorem decodeFrom_three (h : 2048 ≤ v) (h' : v < 65536) (hvalid : v < 0xD800 ∨ 0xDFFF < v) :
    decodeFrom position (UInt8.ofNat (v / 4096 % 16 + 224) ::
        UInt8.ofNat (v / 64 % 64 + 128) :: UInt8.ofNat (v % 64 + 128) :: rest) =
      (decodeFrom (position + 3) rest).map (Char.ofNat v :: ·) := by
  have ha : (UInt8.ofNat (v / 4096 % 16 + 224)).toNat = v / 4096 + 224 := by
    rw [toNat_ofNat_of_lt (by omega)]
    omega
  have hb : (UInt8.ofNat (v / 64 % 64 + 128)).toNat = v / 64 % 64 + 128 :=
    toNat_ofNat_of_lt (by omega)
  have hcontinues : continuesThree (UInt8.ofNat (v / 4096 % 16 + 224))
      (UInt8.ofNat (v / 64 % 64 + 128)) = true := by
    simp only [continuesThree, isContinuation_ofNat, Bool.and_eq_true, Bool.not_eq_true',
      Bool.and_eq_false_iff, beq_eq_false_iff_ne, decide_eq_false_iff_not, ge_iff_le,
      UInt8.lt_iff_toNat_lt, UInt8.le_iff_toNat_le, ne_eq, ← UInt8.toNat_inj, UInt8.reduceToNat,
      ha, hb, true_and]
    omega
  rw [decodeFrom.eq_def]
  simp only [UInt8.lt_iff_toNat_lt, ha, UInt8.reduceToNat, isContinuation_ofNat, payload_ofNat,
    hcontinues]
  rw [if_neg (by omega), if_neg (by omega), if_neg (by omega), if_pos (by omega),
    show (v / 4096 + 224) % 16 * 4096 + v / 64 % 64 * 64 + v % 64 = v by omega]
  rfl

theorem decodeFrom_four (h : 65536 ≤ v) (h' : v < 0x110000) :
    decodeFrom position (UInt8.ofNat (v / 262144 % 8 + 240) ::
        UInt8.ofNat (v / 4096 % 64 + 128) :: UInt8.ofNat (v / 64 % 64 + 128) ::
        UInt8.ofNat (v % 64 + 128) :: rest) =
      (decodeFrom (position + 4) rest).map (Char.ofNat v :: ·) := by
  have ha : (UInt8.ofNat (v / 262144 % 8 + 240)).toNat = v / 262144 + 240 := by
    rw [toNat_ofNat_of_lt (by omega)]
    omega
  have hb : (UInt8.ofNat (v / 4096 % 64 + 128)).toNat = v / 4096 % 64 + 128 :=
    toNat_ofNat_of_lt (by omega)
  have hcontinues : continuesFour (UInt8.ofNat (v / 262144 % 8 + 240))
      (UInt8.ofNat (v / 4096 % 64 + 128)) = true := by
    simp only [continuesFour, isContinuation_ofNat, Bool.and_eq_true, Bool.not_eq_true',
      Bool.and_eq_false_iff, beq_eq_false_iff_ne, decide_eq_false_iff_not, ge_iff_le,
      UInt8.lt_iff_toNat_lt, UInt8.le_iff_toNat_le, ne_eq, ← UInt8.toNat_inj, UInt8.reduceToNat,
      ha, hb, true_and]
    omega
  rw [decodeFrom.eq_def]
  simp only [UInt8.lt_iff_toNat_lt, ha, UInt8.reduceToNat, isContinuation_ofNat, payload_ofNat,
    hcontinues]
  rw [if_neg (by omega), if_neg (by omega), if_neg (by omega), if_neg (by omega),
    if_pos (by omega), show (v / 262144 + 240) % 8 * 262144 + v / 4096 % 64 * 4096 +
      v / 64 % 64 * 64 + v % 64 = v by omega]
  rfl

end

theorem exists_decodeFrom_encodeChar (c : Char) (position : Nat) (rest : List UInt8) :
    ∃ next, decodeFrom position (String.utf8EncodeChar c ++ rest) =
      (decodeFrom next rest).map (c :: ·) := by
  have hvalid : c.val.toNat < 0xD800 ∨ 0xDFFF < c.val.toNat ∧ c.val.toNat < 0x110000 := c.valid
  have hchar : Char.ofNat c.val.toNat = c := Char.ofNat_toNat c
  rw [String.utf8EncodeChar]
  split
  · have hone := decodeFrom_one c.val.toNat position rest (by omega)
    rw [hchar] at hone
    exact ⟨position + 1, hone⟩
  · split
    · have htwo := decodeFrom_two c.val.toNat position rest (by omega) (by omega)
      rw [hchar] at htwo
      exact ⟨position + 2, htwo⟩
    · split
      · have hthree := decodeFrom_three c.val.toNat position rest (by omega) (by omega) (by omega)
        rw [hchar] at hthree
        exact ⟨position + 3, hthree⟩
      · have hfour := decodeFrom_four c.val.toNat position rest (by omega) (by omega)
        rw [hchar] at hfour
        exact ⟨position + 4, hfour⟩

/-- Every text is decoded from its encoding. -/
theorem decode_encode (s : List Char) : decode (encode s) = .ok s := by
  have hfrom : ∀ position, decodeFrom position (encode s) = .ok s := by
    induction s with
    | nil => exact fun _ => rfl
    | cons c s ih =>
      intro position
      obtain ⟨next, hnext⟩ := exists_decodeFrom_encodeChar c position (encode s)
      rw [encode_cons, hnext, ih]
      rfl
  exact hfrom 0

end Courier.Text.Utf8
