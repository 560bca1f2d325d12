import Courier.Json.Printer
import Courier.Json.Reader
import Courier.Proofs.Text.Numeral
import Mathlib.Data.List.Forall2
import Mathlib.Tactic.Common

/-!
# Values that were written

A value that is written in any layout reads back as the same value, provided that it is `Legible`:
it holds whole numbers only, and no object in it holds a key twice.

* `readStringFrom_escapeChar` reads one character of a string, `readString_escape` a whole string.
* `readNumber_int` reads a whole number.  What follows it must not go on with the number
  (`Stops`).
* `Reads` says of a text that it is read as a value, in front of anything that stops it.  A layout
  puts blanks between the parts of a container and nothing else (`Layout.blank_newline`,
  `Layout.separator_eq`), so that items and members are read one after the other
  (`readItems_joinWith`, `readMembers_joinWith`).
* `reads_printAt` is induction on legible values, and `read_print` is about whole texts.
-/

namespace Courier.Json

/-! ## Legible values -/

/-- A value that can be read from a text as it is. -/
inductive Legible : Json → Prop
  | null : Legible .null
  | bool (b : Bool) : Legible (.bool b)
  | int (n : Int) : Legible (.int n)
  | string (s : String) : Legible (.string s)
  | array {items : List Json} (items_legible : ∀ item ∈ items, Legible item) :
      Legible (.array items)
  | object {members : List (String × Json)} (keys : (members.map Prod.fst).Nodup)
      (values : ∀ m ∈ members, Legible m.2) : Legible (.object members)

/-! ## Positions -/

theorem Rest.drop_append (position : Nat) (before after : List Char) :
    Rest.drop before.length ⟨position, before ++ after⟩ = ⟨position + before.length, after⟩ := by
  rw [Rest.drop, List.drop_left]

/-- Blanks are skipped up to a character that is none. -/
theorem Rest.skipSpace_append {blanks after : List Char} (hblanks : ∀ c ∈ blanks, isSpace c = true)
    (hafter : ∀ c ∈ after.head?, isSpace c = false) (position : Nat) :
    Rest.skipSpace ⟨position, blanks ++ after⟩ = ⟨position + blanks.length, after⟩ := by
  have htake : (blanks ++ after).takeWhile isSpace = blanks := by
    rw [List.takeWhile_append_of_pos hblanks]
    rcases after with _ | ⟨c, after⟩
    · simp
    · simp [hafter c rfl]
  rw [Rest.skipSpace]
  dsimp only
  rw [htake]
  exact Rest.drop_append position blanks after

theorem Rest.skipSpace_eq_self {after : List Char} (hafter : ∀ c ∈ after.head?, isSpace c = false)
    (position : Nat) : Rest.skipSpace ⟨position, after⟩ = ⟨position, after⟩ :=
  @Rest.skipSpace_append [] after (by simp) hafter position

/-! ## Strings -/

theorem hexValue?_digitChar : ∀ d < 16, Text.hexValue? (Nat.digitChar d) = some d := by
  decide

/-- Four hexadecimal digits stand for the number they were written for. -/
theorem readHex4_hex4 {n : Nat} (h : n < 65536) (after : List Char) :
    readHex4 (hex4 n ++ after) = some n := by
  simp only [hex4, List.cons_append, List.nil_append, readHex4]
  rw [hexValue?_digitChar _ (Nat.mod_lt _ (by decide)),
    hexValue?_digitChar _ (Nat.mod_lt _ (by decide)),
    hexValue?_digitChar _ (Nat.mod_lt _ (by decide)),
    hexValue?_digitChar _ (Nat.mod_lt _ (by decide))]
  simp only [Option.bind_eq_bind, Option.bind_some, Option.pure_def, Option.some.injEq]
  omega

theorem length_hex4 (n : Nat) : (hex4 n).length = 4 := rfl

theorem charOf?_toNat (c : Char) : charOf? c.toNat = some c := by
  have hvalid : c.toNat.isValidChar := c.valid
  rw [charOf?, if_pos hvalid, Char.ofNat_toNat]

/-- A text is shown as it is when it has no halves. -/
theorem shown_toList (s : String) : shown (s.toList.map some) = s := by
  rw [shown, List.map_map]
  exact (congrArg String.ofList (List.map_id s.toList)).trans String.ofList_toList

theorem ofChars_toList (s : String) : ofChars (s.toList.map some) = .string s := by
  rw [ofChars, if_neg (by simp), shown_toList]

/-- A character is no half of a surrogate pair. -/
theorem isHighSurrogate_toNat (c : Char) : isHighSurrogate c.toNat = false := by
  have hvalid : c.toNat < 55296 ∨ 57343 < c.toNat ∧ c.toNat < 1114112 := c.valid
  simp only [isHighSurrogate, Bool.and_eq_false_iff, decide_eq_false_iff_not]
  omega

variable {start fuel position : Nat} {chars : List (Option Char)} {after : List Char}

/-- An escape that begins no pair is read by itself. -/
theorem readStringFrom_hex4 {n : Nat} (hn : n < 65536) (hhigh : isHighSurrogate n = false)
    (hafter : after ≠ []) :
    readStringFrom start chars (fuel + 1) ⟨position, '\\' :: 'u' :: (hex4 n ++ after)⟩ =
      readStringFrom start (charOf? n :: chars) fuel ⟨position + 6, after⟩ := by
  have hlength : ¬ (hex4 n ++ after).length < 5 := by
    have hpos := List.length_pos_iff.2 hafter
    rw [List.length_append, length_hex4]
    omega
  simp only [readStringFrom, if_neg hlength, readHex4_hex4 hn, hhigh]
  simp [Rest.drop, hex4]

/-- The two escapes of a surrogate pair are read as one character. -/
theorem readStringFrom_pair {high low : Nat} (hhigh : isHighSurrogate high = true)
    (hlow : isLowSurrogate low = true) (hafter : after ≠ []) :
    readStringFrom start chars (fuel + 1)
        ⟨position, '\\' :: 'u' :: (hex4 high ++ '\\' :: 'u' :: (hex4 low ++ after))⟩ =
      readStringFrom start (charOf? (0x10000 + (high - 0xD800) * 1024 + (low - 0xDC00)) :: chars)
        fuel ⟨position + 12, after⟩ := by
  have hpos := List.length_pos_iff.2 hafter
  have hsecond : ¬ (hex4 low ++ after).length < 5 := by
    rw [List.length_append, length_hex4]
    omega
  have hfirst : ¬ (hex4 high ++ '\\' :: 'u' :: (hex4 low ++ after)).length < 5 := by
    rw [List.length_append, length_hex4, List.length_cons]
    omega
  have hdrop : (hex4 high ++ '\\' :: 'u' :: (hex4 low ++ after)).drop 4 =
    '\\' :: 'u' :: (hex4 low ++ after) := rfl
  have hbounds : high < 65536 ∧ low < 65536 := by
    simp only [isHighSurrogate, isLowSurrogate, Bool.and_eq_true, decide_eq_true_eq] at hhigh hlow
    omega
  simp only [readStringFrom, if_neg hfirst, readHex4_hex4 hbounds.1, hhigh, hdrop, if_neg hsecond,
    readHex4_hex4 hbounds.2, hlow, if_true]
  simp [Rest.drop, hex4]

/-- A character that is written as its code point is read, whether it takes one escape or two. -/
theorem readStringFrom_escapeCodePoint (c : Char) (hafter : after ≠ []) :
    readStringFrom start chars (fuel + 1) ⟨position, escapeCodePoint c.toNat ++ after⟩ =
      readStringFrom start (some c :: chars) fuel
        ⟨position + (escapeCodePoint c.toNat).length, after⟩ := by
  rw [escapeCodePoint]
  split_ifs with hplane
  · refine (readStringFrom_hex4 hplane (isHighSurrogate_toNat c) hafter).trans ?_
    rw [charOf?_toNat]
    rfl
  · have hvalid : c.toNat < 55296 ∨ 57343 < c.toNat ∧ c.toNat < 1114112 := c.valid
    dsimp only
    generalize hhigh : 0xD800 + (c.toNat - 65536) / 1024 = high
    generalize hlow : 0xDC00 + (c.toNat - 65536) % 1024 = low
    have hcode : 0x10000 + (high - 0xD800) * 1024 + (low - 0xDC00) = c.toNat := by omega
    have hhalf : isHighSurrogate high = true := by
      simp only [isHighSurrogate, Bool.and_eq_true, decide_eq_true_eq]
      omega
    have hother : isLowSurrogate low = true := by
      simp only [isLowSurrogate, Bool.and_eq_true, decide_eq_true_eq]
      omega
    have hread := @readStringFrom_pair start fuel position chars after high low hhalf hother hafter
    rw [hcode, charOf?_toNat] at hread
    simpa [length_hex4] using hread

/-- A character that is written as it is is read. -/
theorem readStringFrom_plain {c : Char} (hquote : c ≠ '"') (hbackslash : c ≠ '\\')
    (hprintable : ¬ c.toNat < 32) :
    readStringFrom start chars (fuel + 1) ⟨position, c :: after⟩ =
      readStringFrom start (some c :: chars) fuel ⟨position + 1, after⟩ := by
  rw [readStringFrom]
  dsimp only
  split
  case h_6 heq =>
    cases heq
    rw [if_neg hprintable]
    rfl
  all_goals simp_all

/-- One character of a string is read as it was written. -/
theorem readStringFrom_escapeChar (ascii : Bool) (c : Char) (hafter : after ≠ []) :
    readStringFrom start chars (fuel + 1) ⟨position, escapeChar ascii c ++ after⟩ =
      readStringFrom start (some c :: chars) fuel
        ⟨position + (escapeChar ascii c).length, after⟩ := by
  rw [escapeChar]
  split_ifs with hquote hbackslash hnewline hreturn htab hback hfeed hcode
  · subst hquote
    rfl
  · subst hbackslash
    rfl
  · subst hnewline
    rfl
  · subst hreturn
    rfl
  · subst htab
    rfl
  · subst hback
    rfl
  · subst hfeed
    rfl
  · exact readStringFrom_escapeCodePoint c hafter
  · exact readStringFrom_plain hquote hbackslash fun h => hcode (by simp [h])

theorem escapeChar_ne_nil (ascii : Bool) (c : Char) : escapeChar ascii c ≠ [] := by
  rw [escapeChar]
  split_ifs <;> simp [escapeCodePoint]
  split_ifs <;> simp

/-- The rest of a string is read up to its closing quote. -/
theorem readStringFrom_flatMap (ascii : Bool) (cs : List Char) (hfuel : cs.length < fuel) :
    readStringFrom start chars fuel ⟨position, cs.flatMap (escapeChar ascii) ++ '"' :: after⟩ =
      .ok (chars.reverse ++ cs.map some,
        ⟨position + (cs.flatMap (escapeChar ascii)).length + 1, after⟩) := by
  induction cs generalizing chars fuel position with
  | nil =>
    obtain ⟨fuel, rfl⟩ := Nat.exists_eq_succ_of_ne_zero (Nat.ne_of_gt hfuel)
    rw [List.map_nil, List.append_nil]
    rfl
  | cons c cs ih =>
    obtain ⟨fuel, rfl⟩ := Nat.exists_eq_succ_of_ne_zero (Nat.ne_of_gt (Nat.zero_lt_of_lt hfuel))
    rw [List.flatMap_cons, List.append_assoc, readStringFrom_escapeChar ascii c (by simp),
      ih (Nat.lt_of_succ_lt_succ hfuel), List.reverse_cons, List.append_assoc,
      List.length_append, Nat.add_assoc position]
    rfl

theorem length_le_length_flatMap (ascii : Bool) (cs : List Char) :
    cs.length ≤ (cs.flatMap (escapeChar ascii)).length := by
  induction cs with
  | nil => exact Nat.le_refl _
  | cons c cs ih =>
    have hpos := List.length_pos_iff.2 (escapeChar_ne_nil ascii c)
    rw [List.flatMap_cons, List.length_append, List.length_cons]
    omega

/-- A string in quotes is read as its characters. -/
theorem readString_escape (ascii : Bool) (s : String) :
    readString ⟨position, escape ascii s ++ after⟩ =
      .ok (s.toList.map some, ⟨position + (escape ascii s).length, after⟩) := by
  have hle := length_le_length_flatMap ascii s.toList
  have hfuel : s.toList.length < (escape ascii s ++ after).length + 1 := by
    simp only [escape, List.length_append, List.length_cons]
    omega
  have hchars : Rest.drop 1 ⟨position, escape ascii s ++ after⟩ =
      ⟨position + 1, s.toList.flatMap (escapeChar ascii) ++ '"' :: after⟩ := by
    simp [Rest.drop, escape]
  rw [readString, hchars, readStringFrom_flatMap ascii s.toList hfuel, List.reverse_nil,
    List.nil_append]
  refine congrArg (fun n => Except.ok (s.toList.map some, Rest.mk n after)) ?_
  simp only [escape, List.length_append, List.length_cons, List.length_nil]
  omega

/-! ## Whole numbers -/

/-- What comes next does not go on with a number. -/
def Stops (after : List Char) : Prop :=
  ∀ c ∈ after.head?, c.isDigit = false ∧ c ≠ '.' ∧ c ≠ 'e' ∧ c ≠ 'E'

theorem stops_nil : Stops [] := nofun

theorem Stops.fractionDigits (h : Stops after) : fractionDigits after = [] := by
  rcases after with _ | ⟨c, after⟩
  · rfl
  · have hpoint := (h c rfl).2.1
    rw [Json.fractionDigits]
    simpa using hpoint

theorem Stops.exponentPart (h : Stops after) : exponentPart after = none := by
  rcases after with _ | ⟨c, after⟩
  · rfl
  · obtain ⟨-, -, he, hE⟩ := h c rfl
    unfold Json.exponentPart
    exact if_neg (by simp [he, hE])

theorem Stops.takeWhile_append (h : Stops after) {digits : List Char}
    (hdigits : ∀ c ∈ digits, c.isDigit = true) :
    (digits ++ after).takeWhile Char.isDigit = digits := by
  rw [List.takeWhile_append_of_pos hdigits]
  rcases after with _ | ⟨c, after⟩
  · simp
  · simp [(h c rfl).1]

/-- The digits of a number begin with zero only when it is zero. -/
theorem head?_toDigits_ne_zero {n : Nat} (h : 0 < n) : (Nat.toDigits 10 n).head? ≠ some '0' := by
  induction n using Nat.strongRecOn with
  | ind n ih =>
    rcases Nat.lt_or_ge n 10 with hlt | hge
    · have hdigit : ∀ d < 10, 0 < d → Nat.digitChar d ≠ '0' := by decide
      rw [Nat.toDigits_of_lt_base hlt]
      simpa using hdigit n hlt h
    · rw [Nat.toDigits_of_base_le (by decide) hge,
        List.head?_append_of_ne_nil _ Nat.toDigits_ne_nil]
      exact ih (n / 10) (by omega) (by omega)

/-- The digits of a number are read to the last. -/
theorem Stops.wholeDigits_toDigits (h : Stops after) (n : Nat) :
    wholeDigits (Nat.toDigits 10 n ++ after) = Nat.toDigits 10 n := by
  rcases Nat.eq_zero_or_pos n with rfl | hpos
  · rfl
  · rw [wholeDigits]
    · exact h.takeWhile_append fun c => Text.isDigit_of_mem_toDigits
    · intro rest heq
      have hhead := congrArg List.head? heq
      rw [List.head?_append_of_ne_nil _ Nat.toDigits_ne_nil] at hhead
      exact absurd hhead (head?_toDigits_ne_zero hpos)

theorem digitsValue_toDigits (n : Nat) : digitsValue (Nat.toDigits 10 n) = n := by
  have hread := Nat.ofDigitChars_ten_toDigits (n := n)
  rwa [Nat.ofDigitChars_eq_foldl] at hread

/-- A whole number is read as it was written. -/
theorem readNumber_int (h : Stops after) (n : Int) :
    readNumber ⟨position, (toString n).toList ++ after⟩ =
      some (.int n, ⟨position + (toString n).toList.length, after⟩) := by
  have hne : (Nat.toDigits 10 n.natAbs).isEmpty = false := by simp [Nat.toDigits_ne_nil]
  have hfirst : ∀ c ∈ (Nat.toDigits 10 n.natAbs ++ after).head?, c ≠ '-' := by
    intro c hc
    rw [List.head?_append_of_ne_nil _ Nat.toDigits_ne_nil] at hc
    rintro rfl
    exact absurd (Text.isDigit_of_mem_toDigits (List.mem_of_head? hc)) (by decide)
  rw [Text.toList_toString_int]
  split_ifs with hsign
  · have hnegative : Rest.startsWith '-' ⟨position, Nat.toDigits 10 n.natAbs ++ after⟩ = false := by
      rw [Rest.startsWith, beq_eq_false_iff_ne]
      exact fun heq => hfirst '-' heq rfl
    simp only [readNumber, hnegative, Bool.false_eq_true, if_false, h.wholeDigits_toDigits, hne,
      Rest.drop_append, h.fractionDigits, h.exponentPart, List.isEmpty_nil, if_true,
      digitsValue_toDigits]
    rw [Int.natAbs_of_nonneg hsign]
  · have hnegative :
        Rest.startsWith '-' ⟨position, '-' :: Nat.toDigits 10 n.natAbs ++ after⟩ = true := rfl
    have hdrop : Rest.drop 1 ⟨position, '-' :: Nat.toDigits 10 n.natAbs ++ after⟩ =
        ⟨position + 1, Nat.toDigits 10 n.natAbs ++ after⟩ := rfl
    have hvalue : -((n.natAbs : Nat) : Int) = n := by omega
    simp only [readNumber, hnegative, if_true, hdrop, h.wholeDigits_toDigits, hne, Bool.false_eq_true,
      if_false, Rest.drop_append, h.fractionDigits, h.exponentPart, List.isEmpty_nil,
      digitsValue_toDigits, hvalue, List.length_cons]
    rw [Nat.add_assoc, Nat.add_comm 1]

/-! ## Layouts -/

/-- Nothing but blanks. -/
def Blank (text : List Char) : Prop := ∀ c ∈ text, isSpace c = true

theorem Layout.blank_newline (layout : Layout) (level : Nat) : Blank (layout.newline level) := by
  intro c hc
  rw [Layout.newline] at hc
  split at hc
  · cases hc
  · rcases List.mem_cons.1 hc with rfl | hc
    · rfl
    · rw [List.eq_of_mem_replicate hc]
      rfl

theorem Layout.separator_eq (layout : Layout) (level : Nat) :
    ∃ blanks, layout.separator level = ',' :: blanks ∧ Blank blanks := by
  rw [Layout.separator]
  split
  · exact ⟨[' '], rfl, by simp [Blank, isSpace]⟩
  · exact ⟨_, rfl, layout.blank_newline level⟩

theorem stops_cons {c : Char} (h : c.isDigit = false ∧ c ≠ '.' ∧ c ≠ 'e' ∧ c ≠ 'E') :
    Stops (c :: after) := by
  rintro _ ⟨⟩
  exact h

/-- Blanks stop a number. -/
theorem Blank.stops_append {blanks : List Char} (hblanks : Blank blanks) (h : Stops after) :
    Stops (blanks ++ after) := by
  rcases blanks with _ | ⟨c, blanks⟩
  · exact h
  · have hc := hblanks c List.mem_cons_self
    simp only [isSpace, Bool.or_eq_true, beq_iff_eq] at hc
    refine stops_cons ?_
    rcases hc with ((rfl | rfl) | rfl) | rfl <;> decide

theorem printItems_eq_map (layout : Layout) (level : Nat) (items : List Json) :
    printItems layout level items = items.map (printAt layout level) := by
  induction items with
  | nil => simp [printItems]
  | cons item items ih => simp [printItems, ih]

/-- The text of a member. -/
def printMember (layout : Layout) (level : Nat) (m : String × Json) : List Char :=
  escape layout.ascii m.1 ++ ": ".toList ++ printAt layout level m.2

theorem printMembers_eq_map (layout : Layout) (level : Nat) (members : List (String × Json)) :
    printMembers layout level members = members.map (printMember layout level) := by
  induction members with
  | nil => simp [printMembers]
  | cons m members ih => simp [printMembers, printMember, ih]

/-! ## Containers -/

/-- A text begins with a character that opens a value. -/
def Opens (text : List Char) : Prop :=
  ∃ c rest, text = c :: rest ∧ isSpace c = false ∧ c ≠ ']' ∧ c ≠ '\x7d' ∧ c ≠ '\uFEFF'

/-- A text is read as a value, in front of anything that stops it. -/
structure Reads (text : List Char) (v : Json) : Prop where
  opens : Opens text
  read : ∀ fuel position after, Stops after → 2 * text.length ≤ fuel →
    ∃ stop, readValue fuel ⟨position, text ++ after⟩ = .ok (v, ⟨stop, after⟩)

theorem Opens.isSpace_head {text : List Char} (h : Opens text) (after : List Char) :
    ∀ c ∈ (text ++ after).head?, isSpace c = false := by
  obtain ⟨c, rest, rfl, hspace, -⟩ := h
  rintro _ ⟨⟩
  exact hspace

variable {blanks closing text : List Char} {texts : List (List Char)}

theorem Opens.length_pos (h : Opens text) : 0 < text.length := by
  obtain ⟨c, rest, rfl, -⟩ := h
  exact Nat.succ_pos _

section Containers

variable {blanks closing text : List Char} {texts : List (List Char)}

/-- The text of what follows the first item of a container. -/
def following (blanks : List Char) (texts : List (List Char)) : List Char :=
  texts.flatMap (',' :: blanks ++ ·)

theorem following_nil (blanks : List Char) : following blanks [] = [] := rfl

theorem following_cons (text : List Char) (texts : List (List Char)) :
    following blanks (text :: texts) = ',' :: (blanks ++ (text ++ following blanks texts)) := by
  rw [following, List.flatMap_cons, List.cons_append, List.cons_append, List.append_assoc]
  rfl

theorem joinWith_comma (blanks text : List Char) (texts : List (List Char)) :
    Text.joinWith (',' :: blanks) (text :: texts) = text ++ following blanks texts := by
  induction texts generalizing text with
  | nil => rw [following_nil, List.append_nil, Text.joinWith]
  | cons next texts ih =>
    rw [Text.joinWith, ih, following_cons, List.append_assoc]
    · rfl
    · rintro ⟨⟩

/-- Nothing is skipped before the text of a value, and blanks before it are. -/
theorem Opens.skipSpace (h : Opens text) (hblanks : Blank blanks) (position : Nat)
    (rest : List Char) :
    Rest.skipSpace ⟨position, blanks ++ (text ++ rest)⟩ =
      ⟨position + blanks.length, text ++ rest⟩ :=
  Rest.skipSpace_append hblanks (h.isSpace_head rest) position

/-- The bracket that closes a container is found behind blanks. -/
theorem Blank.skipSpace_closing (h : Blank closing) {bracket : Char}
    (hbracket : isSpace bracket = false) (position : Nat) (after : List Char) :
    Rest.skipSpace ⟨position, closing ++ bracket :: after⟩ =
      ⟨position + closing.length, bracket :: after⟩ :=
  Rest.skipSpace_append h (by simpa using hbracket) position

theorem skipSpace_comma (rest : List Char) :
    Rest.skipSpace ⟨position, ',' :: rest⟩ = ⟨position, ',' :: rest⟩ :=
  Rest.skipSpace_eq_self (by simp [isSpace]) position

/-! ### Items -/

section Items

variable {item : Json} {items before : List Json} {r : Rest}

/-- The bracket ends the items. -/
theorem readItems_last (hclosing : Blank closing)
    (h : readValue fuel r = .ok (item, ⟨position, closing ++ ']' :: after⟩)) :
    readItems (fuel + 1) before r =
      .ok (.array (before.reverse ++ [item]), ⟨position + closing.length + 1, after⟩) := by
  have hbracket : isSpace ']' = false := rfl
  rw [readItems, h]
  simp only [bind, Except.bind, hclosing.skipSpace_closing hbracket, List.reverse_cons]
  rfl

/-- A comma comes before another item. -/
theorem readItems_next {rest : List Char}
    (h : readValue fuel r = .ok (item, ⟨position, ',' :: rest⟩)) :
    readItems (fuel + 1) before r =
      readItems fuel (item :: before) (Rest.skipSpace ⟨position + 1, rest⟩) := by
  rw [readItems, h]
  simp only [bind, Except.bind, skipSpace_comma]
  rfl

/-- Items are read one after the other, up to the bracket that closes them. -/
theorem readItems_following (hblanks : Blank blanks) (hclosing : Blank closing)
    (hitem : Reads text item) (hitems : List.Forall₂ Reads texts items)
    (hfuel : 2 * (text ++ following blanks texts).length < fuel) (position : Nat)
    (before : List Json) :
    ∃ stop, readItems fuel before
      ⟨position, text ++ (following blanks texts ++ (closing ++ ']' :: after))⟩ =
        .ok (.array (before.reverse ++ item :: items), ⟨stop, after⟩) := by
  obtain ⟨fuel, rfl⟩ := Nat.exists_eq_succ_of_ne_zero (Nat.ne_of_gt (Nat.zero_lt_of_lt hfuel))
  induction hitems generalizing text item before position fuel with
  | nil =>
    rw [following_nil, List.append_nil] at hfuel
    obtain ⟨stop, hread⟩ := hitem.read fuel position (closing ++ ']' :: after)
      (hclosing.stops_append (stops_cons (by decide))) (Nat.le_of_lt_succ hfuel)
    exact ⟨_, readItems_last hclosing hread⟩
  | @cons next other texts items hnext _ ih =>
    rw [following_cons, List.length_append, List.length_cons, List.length_append] at hfuel
    obtain ⟨fuel, rfl⟩ := Nat.exists_eq_succ_of_ne_zero (n := fuel) (by omega)
    rw [following_cons, List.cons_append, List.append_assoc]
    obtain ⟨stop, hread⟩ := hitem.read (fuel + 1) position _
      (stops_cons (c := ',') (by decide)) (by omega)
    rw [readItems_next hread, List.append_assoc, hnext.opens.skipSpace hblanks]
    obtain ⟨last, hlast⟩ := ih hnext (stop + 1 + blanks.length) (item :: before) fuel (by omega)
    exact ⟨last, by rw [hlast, List.reverse_cons, List.append_assoc]; rfl⟩

end Items

/-! ### Members -/

/-- A member whose key is new is put at the end. -/
theorem put_of_notMem {key : String} {value : Json} {members : List (String × Json)}
    (h : key ∉ members.map Prod.fst) : Members.put key value members = members ++ [(key, value)] := by
  induction members with
  | nil => rfl
  | cons m members ih =>
    rw [List.map_cons, List.mem_cons, not_or] at h
    rw [Members.put, if_neg (Ne.symm h.1), ih h.2]
    rfl

/-- A text is a key with the text of the value. -/
def ReadsMember (ascii : Bool) (text : List Char) (m : String × Json) : Prop :=
  ∃ value, text = escape ascii m.1 ++ (':' :: ' ' :: value) ∧ Reads value m.2

theorem ReadsMember.opens {ascii : Bool} {m : String × Json} (h : ReadsMember ascii text m) :
    Opens text := by
  obtain ⟨value, rfl, -⟩ := h
  exact ⟨'"', _, rfl, rfl, by decide, by decide, by decide⟩

section Members

variable {ascii : Bool} {m : String × Json} {members before : List (String × Json)} {r : Rest}

/-- The key of a member and the colon are read, and then the value. -/
theorem readMembers_value {value : List Char}
    (h : readValue fuel ⟨position + (escape ascii m.1).length + 2, value⟩ = .ok (m.2, r))
    (hvalue : ∀ c ∈ value.head?, isSpace c = false) :
    readMembers (fuel + 1) before ⟨position, escape ascii m.1 ++ (':' :: ' ' :: value)⟩ =
      (if r.skipSpace.startsWith '\x7d' then
        .ok (.object (Members.put m.1 m.2 before), r.skipSpace.drop 1)
      else if r.skipSpace.startsWith ',' then
        readMembers fuel (Members.put m.1 m.2 before) (r.skipSpace.drop 1).skipSpace
      else .error ⟨.expectedComma, r.skipSpace.position⟩) := by
  have hquote : Rest.startsWith '"' ⟨position, escape ascii m.1 ++ (':' :: ' ' :: value)⟩ = true :=
    rfl
  have hcolon (position : Nat) : Rest.skipSpace ⟨position, ':' :: ' ' :: value⟩ =
      ⟨position, ':' :: ' ' :: value⟩ := Rest.skipSpace_eq_self (by simp [isSpace]) position
  have hblank (position : Nat) : Rest.skipSpace (Rest.drop 1 ⟨position, ':' :: ' ' :: value⟩) =
      ⟨position + 2, value⟩ :=
    @Rest.skipSpace_append [' '] value (by simp [isSpace]) hvalue (position + 1)
  rw [readMembers, hquote, readString_escape]
  simp only [Bool.not_true, Bool.false_eq_true, if_false, bind, Except.bind, pure, Except.pure,
    hcolon, hblank]
  have hstarts (position : Nat) : Rest.startsWith ':' ⟨position, ':' :: ' ' :: value⟩ = true := rfl
  rw [hstarts, h, shown_toList]
  rfl

/-- The bracket ends the members. -/
theorem readMembers_last {value : List Char} (hclosing : Blank closing) (hm : Reads value m.2)
    (hkey : m.1 ∉ before.map Prod.fst)
    (hfuel : 2 * (escape ascii m.1 ++ (':' :: ' ' :: value)).length ≤ fuel) :
    ∃ stop, readMembers (fuel + 1) before
      ⟨position, escape ascii m.1 ++ (':' :: ' ' :: value) ++ (closing ++ '\x7d' :: after)⟩ =
        .ok (.object (before ++ [m]), ⟨stop, after⟩) := by
  simp only [List.length_append, List.length_cons] at hfuel
  obtain ⟨stop, hread⟩ := hm.read fuel (position + (escape ascii m.1).length + 2)
    (closing ++ '\x7d' :: after) (hclosing.stops_append (stops_cons (by decide))) (by omega)
  have hbracket : isSpace '\x7d' = false := rfl
  refine ⟨stop + closing.length + 1, ?_⟩
  rw [List.append_assoc, List.cons_append, List.cons_append,
    readMembers_value hread (hm.opens.isSpace_head _), hclosing.skipSpace_closing hbracket,
    put_of_notMem hkey]
  rfl

/-- A comma comes before another member. -/
theorem readMembers_next {value : List Char} (hm : Reads value m.2)
    (hkey : m.1 ∉ before.map Prod.fst)
    (hfuel : 2 * (escape ascii m.1 ++ (':' :: ' ' :: value)).length ≤ fuel) (position : Nat)
    (rest : List Char) :
    ∃ stop, readMembers (fuel + 1) before
      ⟨position, escape ascii m.1 ++ (':' :: ' ' :: value) ++ (',' :: rest)⟩ =
        readMembers fuel (before ++ [m]) (Rest.skipSpace ⟨stop, rest⟩) := by
  simp only [List.length_append, List.length_cons] at hfuel
  obtain ⟨stop, hread⟩ := hm.read fuel (position + (escape ascii m.1).length + 2) (',' :: rest)
    (stops_cons (by decide)) (by omega)
  refine ⟨stop + 1, ?_⟩
  rw [List.append_assoc, List.cons_append, List.cons_append,
    readMembers_value hread (hm.opens.isSpace_head _), skipSpace_comma, put_of_notMem hkey]
  rfl

/-- Members with distinct keys are read one after the other, up to the bracket that closes them. -/
theorem readMembers_following (hblanks : Blank blanks) (hclosing : Blank closing)
    (hm : ReadsMember ascii text m) (hmembers : List.Forall₂ (ReadsMember ascii) texts members)
    (hkeys : ((before ++ m :: members).map Prod.fst).Nodup)
    (hfuel : 2 * (text ++ following blanks texts).length < fuel) (position : Nat) :
    ∃ stop, readMembers fuel before
      ⟨position, text ++ (following blanks texts ++ (closing ++ '\x7d' :: after))⟩ =
        .ok (.object (before ++ m :: members), ⟨stop, after⟩) := by
  obtain ⟨fuel, rfl⟩ := Nat.exists_eq_succ_of_ne_zero (Nat.ne_of_gt (Nat.zero_lt_of_lt hfuel))
  have hkey : m.1 ∉ before.map Prod.fst := by
    rw [List.map_append, List.map_cons, List.nodup_append] at hkeys
    exact fun hmem => hkeys.2.2 _ hmem _ List.mem_cons_self rfl
  induction hmembers generalizing text m before position fuel with
  | nil =>
    obtain ⟨value, rfl, hvalue⟩ := hm
    rw [following_nil, List.append_nil] at hfuel
    exact readMembers_last hclosing hvalue hkey (Nat.le_of_lt_succ hfuel)
  | @cons next other texts members hnext _ ih =>
    rw [following_cons, List.length_append, List.length_cons, List.length_append] at hfuel
    obtain ⟨fuel, rfl⟩ := Nat.exists_eq_succ_of_ne_zero (n := fuel) (by omega)
    have hopens := hnext.opens
    obtain ⟨value, rfl, hvalue⟩ := hm
    have hlength : 2 * (escape ascii m.1 ++ (':' :: ' ' :: value)).length ≤ fuel + 1 := by omega
    obtain ⟨stop, hread⟩ := readMembers_next hvalue hkey hlength position
      (blanks ++ (next ++ (following blanks texts ++ (closing ++ '\x7d' :: after))))
    rw [List.append_cons] at hkeys
    have hother : other.1 ∉ (before ++ [m]).map Prod.fst := by
      rw [List.map_append, List.nodup_append] at hkeys
      exact fun hmem => hkeys.2.2 _ hmem _ List.mem_cons_self rfl
    obtain ⟨last, hlast⟩ := ih hnext hkeys (stop + blanks.length) fuel (by omega) hother
    refine ⟨last, ?_⟩
    rw [following_cons, List.cons_append, List.append_assoc blanks, List.append_assoc next, hread,
      hopens.skipSpace hblanks, hlast, ← List.append_cons]

end Members

end Containers

/-! ## Values -/

theorem opens_escape (ascii : Bool) (s : String) : Opens (escape ascii s) :=
  ⟨'"', _, rfl, rfl, by decide, by decide, by decide⟩

/-- A text that begins with no quote and no bracket is read as a scalar. -/
theorem readValue_scalar {c : Char} {rest : List Char} (hquote : c ≠ '"') (hbracket : c ≠ '[')
    (hbrace : c ≠ '\x7b') :
    readValue (fuel + 1) ⟨position, c :: rest⟩ = readScalar ⟨position, c :: rest⟩ := by
  rw [readValue]
  dsimp only
  split <;> simp_all

/-- Values that take one step to read, whatever the fuel. -/
theorem Reads.of_step {text : List Char} {v : Json} (opens : Opens text)
    (step : ∀ fuel position after, Stops after →
      readValue (fuel + 1) ⟨position, text ++ after⟩ = .ok (v, ⟨position + text.length, after⟩)) :
    Reads text v where
  opens := opens
  read fuel position after hstops hfuel := by
    have hpos := opens.length_pos
    obtain ⟨fuel, rfl⟩ := Nat.exists_eq_succ_of_ne_zero (n := fuel) (by omega)
    exact ⟨_, step fuel position after hstops⟩

theorem reads_null : Reads "null".toList .null :=
  .of_step ⟨'n', _, rfl, rfl, by decide, by decide, by decide⟩ fun _ _ _ _ => rfl

theorem reads_true : Reads "true".toList (.bool true) :=
  .of_step ⟨'t', _, rfl, rfl, by decide, by decide, by decide⟩ fun _ _ _ _ => rfl

theorem reads_false : Reads "false".toList (.bool false) :=
  .of_step ⟨'f', _, rfl, rfl, by decide, by decide, by decide⟩ fun _ _ _ _ => rfl

theorem reads_string (ascii : Bool) (s : String) : Reads (escape ascii s) (.string s) := by
  refine .of_step (opens_escape ascii s) fun fuel position after _ => ?_
  have hread : readValue (fuel + 1) ⟨position, escape ascii s ++ after⟩ =
      (readString ⟨position, escape ascii s ++ after⟩).bind fun r => .ok (ofChars r.1, r.2) := rfl
  rw [hread, readString_escape, Except.bind, ofChars_toList]

/-- A whole number is written as a digit or a minus sign and what follows it, which is a digit when
there is a sign. -/
theorem toString_int_cases (n : Int) :
    ∃ c rest, (toString n).toList = c :: rest ∧
      (c.isDigit = true ∨ c = '-' ∧ ∃ d digits, rest = d :: digits ∧ d.isDigit = true) := by
  obtain ⟨d, digits, hdigits⟩ := List.exists_cons_of_ne_nil
    (Nat.toDigits_ne_nil (n := n.natAbs) (b := 10))
  have hd : d.isDigit = true := Text.isDigit_of_mem_toDigits (hdigits ▸ List.mem_cons_self)
  rw [Text.toList_toString_int, hdigits]
  split_ifs
  · exact ⟨d, digits, rfl, .inl hd⟩
  · exact ⟨'-', d :: digits, rfl, .inr ⟨rfl, d, digits, rfl, hd⟩⟩

theorem ne_of_isDigit {c d : Char} (hc : c.isDigit = true) (hd : d.isDigit = false) : c ≠ d := by
  rintro rfl
  rw [hc] at hd
  cases hd

/-- No word is read where a whole number begins. -/
theorem find?_words_int (n : Int) (after : List Char) :
    words.find? (fun w => w.1.isPrefixOf ((toString n).toList ++ after)) = none := by
  obtain ⟨c, rest, htext, hdigit | ⟨rfl, d, digits, rfl, hdigit⟩⟩ := toString_int_cases n
  · have hn := ne_of_isDigit hdigit (d := 'n') rfl
    have ht := ne_of_isDigit hdigit (d := 't') rfl
    have hf := ne_of_isDigit hdigit (d := 'f') rfl
    have hN := ne_of_isDigit hdigit (d := 'N') rfl
    have hI := ne_of_isDigit hdigit (d := 'I') rfl
    have hminus := ne_of_isDigit hdigit (d := '-') rfl
    rw [htext]
    simp [words, hn.symm, ht.symm, hf.symm, hN.symm, hI.symm, hminus.symm]
  · have hI := ne_of_isDigit hdigit (d := 'I') rfl
    rw [htext]
    simp [words, hI.symm]

theorem reads_int (n : Int) : Reads (toString n).toList (.int n) := by
  obtain ⟨c, rest, htext, hc⟩ := toString_int_cases n
  have hfirst : ∀ d, d.isDigit = false → d ≠ '-' → c ≠ d := by
    rintro d hd hminus
    rcases hc with hdigit | ⟨rfl, -⟩
    · exact ne_of_isDigit hdigit hd
    · exact hminus.symm
  have hopens : Opens (toString n).toList := by
    refine ⟨c, rest, htext, ?_, hfirst _ rfl (by decide), hfirst _ rfl (by decide),
      hfirst _ rfl (by decide)⟩
    simp [isSpace, hfirst ' ' rfl (by decide), hfirst '\t' rfl (by decide),
      hfirst '\n' rfl (by decide), hfirst '\r' rfl (by decide)]
  refine .of_step hopens fun fuel position after hstops => ?_
  have hscalar := @readValue_scalar fuel position c (rest ++ after) (hfirst '"' rfl (by decide))
    (hfirst '[' rfl (by decide)) (hfirst '\x7b' rfl (by decide))
  rw [← List.cons_append, ← htext] at hscalar
  rw [hscalar, readScalar]
  simp only [find?_words_int, readNumber_int hstops]
  rfl

section

variable {blanks inner closing : List Char} {texts : List (List Char)}

/-- Reading an array goes on with its first item. -/
theorem readValue_array {text rest : List Char} (hinner : Blank inner) (h : Opens text) :
    readValue (fuel + 1) ⟨position, '[' :: (inner ++ (text ++ rest))⟩ =
      readItems fuel [] ⟨position + 1 + inner.length, text ++ rest⟩ := by
  have hskip : Rest.skipSpace (Rest.drop 1 ⟨position, '[' :: (inner ++ (text ++ rest))⟩) =
    ⟨position + 1 + inner.length, text ++ rest⟩ := h.skipSpace hinner (position + 1) rest
  obtain ⟨c, more, rfl, -, hbracket, -⟩ := h
  have hstarts (position : Nat) : Rest.startsWith ']' ⟨position, c :: more ++ rest⟩ = false := by
    simpa [Rest.startsWith] using hbracket
  rw [readValue]
  simp only [hskip, hstarts, Bool.false_eq_true, if_false]

/-- Reading an object goes on with its first member. -/
theorem readValue_object {text rest : List Char} (hinner : Blank inner) (h : Opens text) :
    readValue (fuel + 1) ⟨position, '\x7b' :: (inner ++ (text ++ rest))⟩ =
      readMembers fuel [] ⟨position + 1 + inner.length, text ++ rest⟩ := by
  have hskip : Rest.skipSpace (Rest.drop 1 ⟨position, '\x7b' :: (inner ++ (text ++ rest))⟩) =
    ⟨position + 1 + inner.length, text ++ rest⟩ := h.skipSpace hinner (position + 1) rest
  obtain ⟨c, more, rfl, -, -, hbrace, -⟩ := h
  have hstarts (position : Nat) : Rest.startsWith '\x7d' ⟨position, c :: more ++ rest⟩ = false := by
    simpa [Rest.startsWith] using hbrace
  rw [readValue]
  simp only [hskip, hstarts, Bool.false_eq_true, if_false]

theorem reads_array (hblanks : Blank blanks) (hinner : Blank inner) (hclosing : Blank closing)
    {items : List Json} (hitems : List.Forall₂ Reads texts items) (hne : items ≠ []) :
    Reads ('[' :: inner ++ Text.joinWith (',' :: blanks) texts ++ closing ++ [']'])
      (.array items) := by
  refine ⟨⟨'[', _, rfl, rfl, by decide, by decide, by decide⟩, fun fuel position after _ hfuel => ?_⟩
  rcases hitems with _ | @⟨text, item, texts, items, hitem, hitems⟩
  · exact absurd rfl hne
  rw [joinWith_comma] at hfuel ⊢
  simp only [List.length_append, List.length_cons] at hfuel
  obtain ⟨fuel, rfl⟩ := Nat.exists_eq_succ_of_ne_zero (n := fuel) (by omega)
  have hlength : 2 * (text ++ following blanks texts).length < fuel := by
    rw [List.length_append]
    omega
  obtain ⟨stop, hread⟩ := @readItems_following fuel after blanks closing text texts item items
    hblanks hclosing hitem hitems hlength (position + 1 + inner.length) []
  refine ⟨stop, ?_⟩
  simpa only [List.append_assoc, List.cons_append, List.nil_append, List.reverse_nil]
    using (readValue_array hinner hitem.opens).trans hread

theorem reads_object (hblanks : Blank blanks) (hinner : Blank inner) (hclosing : Blank closing)
    {ascii : Bool} {members : List (String × Json)}
    (hmembers : List.Forall₂ (ReadsMember ascii) texts members)
    (hkeys : (members.map Prod.fst).Nodup) (hne : members ≠ []) :
    Reads ('\x7b' :: inner ++ Text.joinWith (',' :: blanks) texts ++ closing ++ ['\x7d'])
      (.object members) := by
  refine ⟨⟨'\x7b', _, rfl, rfl, by decide, by decide, by decide⟩, fun fuel position after _ hfuel => ?_⟩
  rcases hmembers with _ | @⟨text, m, texts, members, hm, hmembers⟩
  · exact absurd rfl hne
  rw [joinWith_comma] at hfuel ⊢
  simp only [List.length_append, List.length_cons] at hfuel
  obtain ⟨fuel, rfl⟩ := Nat.exists_eq_succ_of_ne_zero (n := fuel) (by omega)
  have hlength : 2 * (text ++ following blanks texts).length < fuel := by
    rw [List.length_append]
    omega
  have hnodup : (([] ++ m :: members).map Prod.fst).Nodup := hkeys
  obtain ⟨stop, hread⟩ := @readMembers_following fuel after blanks closing text texts ascii m members
    [] hblanks hclosing hm hmembers hnodup hlength (position + 1 + inner.length)
  refine ⟨stop, ?_⟩
  simpa only [List.append_assoc, List.cons_append, List.nil_append]
    using (readValue_object hinner hm.opens).trans hread

end

/-- The text of a legible value is read as the value. -/
theorem reads_printAt (layout : Layout) {v : Json} (h : Legible v) (level : Nat) :
    Reads (printAt layout level v) v := by
  induction h generalizing level with
  | null => exact reads_null
  | bool b =>
    cases b
    · exact reads_false
    · exact reads_true
  | int n => exact reads_int n
  | string s => exact reads_string layout.ascii s
  | @array items _ ih =>
    obtain ⟨blanks, hseparator, hblanks⟩ := layout.separator_eq (level + 1)
    rcases items with _ | ⟨item, items⟩
    · exact .of_step ⟨'[', _, rfl, rfl, by decide, by decide, by decide⟩ fun _ _ _ _ => rfl
    · rw [printAt, hseparator, printItems_eq_map]
      · refine reads_array hblanks (layout.blank_newline _) (layout.blank_newline _) ?_ (by simp)
        rw [List.forall₂_map_left_iff, List.forall₂_same]
        exact fun item hitem => ih item hitem (level + 1)
      · simp
  | @object members keys _ ih =>
    obtain ⟨blanks, hseparator, hblanks⟩ := layout.separator_eq (level + 1)
    rcases members with _ | ⟨m, members⟩
    · exact .of_step ⟨'\x7b', _, rfl, rfl, by decide, by decide, by decide⟩ fun _ _ _ _ => rfl
    · rw [printAt, hseparator, printMembers_eq_map]
      · have hmembers : List.Forall₂ (ReadsMember layout.ascii)
            ((m :: members).map (printMember layout (level + 1))) (m :: members) := by
          rw [List.forall₂_map_left_iff, List.forall₂_same]
          exact fun m hm => ⟨_, by rw [printMember, List.append_assoc]; rfl, ih m hm (level + 1)⟩
        exact reads_object hblanks (layout.blank_newline _) (layout.blank_newline _) hmembers keys
          (by simp)
      · simp

/-! ## Whole texts -/

/-- A legible value reads back from its text, in every layout. -/
theorem read_print (layout : Layout) {v : Json} (h : Legible v) :
    read (print layout v).toList = .ok v := by
  have hreads := reads_printAt layout h 0
  have htext : (print layout v).toList = printAt layout 0 v := String.toList_ofList
  have hfirst : (printAt layout 0 v).head? ≠ some '\uFEFF' := by
    obtain ⟨c, rest, htext, -, -, -, hmark⟩ := hreads.opens
    rw [htext]
    simpa using hmark
  have hskip : Rest.skipSpace ⟨0, printAt layout 0 v⟩ = ⟨0, printAt layout 0 v⟩ :=
    Rest.skipSpace_eq_self (by simpa using hreads.opens.isSpace_head []) 0
  obtain ⟨stop, hread⟩ := hreads.read (2 * (printAt layout 0 v).length + 2) 0 [] stops_nil (by omega)
  rw [List.append_nil] at hread
  have hend : Rest.skipSpace ⟨stop, []⟩ = ⟨stop, []⟩ := Rest.skipSpace_eq_self (by simp) stop
  rw [read, htext, if_neg hfirst, hskip, hread]
  simp only [bind, Except.bind, hend]
  rfl

end Courier.Json
