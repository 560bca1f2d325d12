import Courier.Proofs.Text.Numeral
import Courier.Url.Placeholder
import Mathlib.Data.List.Infix
import Mathlib.Tactic.Common

/-!
# Masked texts and their restoration

An address is taken apart while its placeholders are masked by tokens.  This module says what the
parts of a masked address have to do with the parts of the address.

* Marks.  `markFor_spec` says that the mark chosen for a text does not occur in it.  A mark holds
  its last letter once, so a mark cannot overlap a later one (`Mark.prefix_of_prefix_append`).
* Braced texts.  `Braced s names` says that every brace of `s` belongs to one of the placeholders
  `names`.  `Braced.pieces_append` says that such a text is read on its own, whatever follows it.
* Masked texts.  `Masked m s t` says that `t` is `s` with tokens in place of its placeholders.  The
  parts of a masked text are the masked parts of the text (`Masked.split`).
* Covered texts.  `m.Covers s t` says the same of a text in which braces may stand anywhere.  Such
  texts are cut at any character that is in no token (`Mask.Covers.cut`).
* Restored texts.  Restoring what is put for a text gives the text back (`Mask.Covers.restore`), if
  the mark does not occur in it; the only way in which that can fail is a token whose number has
  more digits than are read.
-/

namespace Courier.Url

open Text (isDecimal digitValue? contains)

/-! ## Marks -/

theorem contains_iff_infix (needle s : List Char) : contains needle s = true ↔ needle <:+: s := by
  induction s with
  | nil => simp [contains]
  | cons c s ih =>
    rw [contains, Bool.or_eq_true, ih, List.isPrefixOf_iff_prefix, List.infix_cons_iff]

/-- A mark is the shortest mark after any number of underscores. -/
def Mark (mark : List Char) : Prop := ∃ n, mark = List.replicate n '_' ++ baseMark

theorem Mark.underscore {mark : List Char} (h : Mark mark) : Mark ('_' :: mark) := by
  obtain ⟨n, rfl⟩ := h
  exact ⟨n + 1, by rw [List.replicate_succ, List.cons_append]⟩

/-- Every mark begins with an underscore. -/
theorem Mark.exists_cons {mark : List Char} (h : Mark mark) : ∃ rest, mark = '_' :: rest := by
  obtain ⟨n, rfl⟩ := h
  cases n with
  | zero => exact ⟨_, rfl⟩
  | succ n => exact ⟨_, by rw [List.replicate_succ, List.cons_append]⟩

theorem Mark.ne_nil {mark : List Char} (h : Mark mark) : mark ≠ [] := by
  obtain ⟨rest, rfl⟩ := h.exists_cons
  exact List.cons_ne_nil _ _

/-- The last letter of a mark occurs in it once. -/
theorem Mark.count_eq_one {mark : List Char} (h : Mark mark) : mark.count 'r' = 1 := by
  obtain ⟨n, rfl⟩ := h
  rw [List.count_append, List.count_replicate]
  rfl

theorem Mark.getLast? {mark : List Char} (h : Mark mark) : mark.getLast? = some 'r' := by
  obtain ⟨n, rfl⟩ := h
  rw [List.getLast?_append]
  rfl

/-- A mark that begins before another mark ends before it. -/
theorem Mark.prefix_of_prefix_append {mark before rest : List Char} (h : Mark mark)
    (hne : before ≠ []) (hp : mark <+: before ++ (mark ++ rest)) : mark <+: before := by
  rcases List.prefix_or_prefix_of_prefix hp (List.prefix_append before _) with hb | ⟨extra, hextra⟩
  · exact hb
  · rcases List.eq_nil_or_concat extra with rfl | ⟨front, last, hlast⟩
    · exact ⟨[], by simpa using hextra.symm⟩
    · -- The overlap would be a proper beginning of the mark that ends as the mark does.
      have hend : extra.getLast? = some 'r' := by
        rw [← h.getLast?, ← hextra, List.getLast?_append, hlast]
        simp
      have hmem : 'r' ∈ extra := List.mem_of_getLast? hend
      have hstart : extra <+: mark := by
        have hextra' : extra <+: mark ++ rest := by
          rw [← hextra, List.prefix_append_right_inj] at hp
          rwa [hextra] at hp
        refine List.prefix_of_prefix_length_le hextra' (List.prefix_append mark rest) ?_
        rw [← hextra, List.length_append]
        omega
      obtain ⟨tail, htail⟩ := hstart
      have hlen : extra.length < mark.length := by
        have := List.length_pos_of_ne_nil hne
        rw [← hextra, List.length_append]
        omega
      have htail' : tail.getLast? = some 'r' := by
        have hne' : tail ≠ [] := by
          rintro rfl
          rw [List.append_nil] at htail
          rw [htail] at hlen
          omega
        rw [← h.getLast?, ← htail, List.getLast?_append, List.getLast?_eq_some_getLast hne',
          Option.some_or]
      have hcount := h.count_eq_one
      rw [← htail, List.count_append] at hcount
      have h1 := List.count_pos_iff.2 hmem
      have h2 := List.count_pos_iff.2 (List.mem_of_getLast? htail')
      omega

theorem mark_extendMark (s : List Char) (tries : Nat) {mark : List Char} (h : Mark mark) :
    Mark (extendMark s tries mark) := by
  induction tries generalizing mark with
  | zero => exact h
  | succ tries ih =>
    rw [extendMark]
    split
    · exact ih h.underscore
    · exact h

/-- With enough tries a mark is found that does not occur in the text. -/
theorem not_infix_extendMark {s mark : List Char} {tries : Nat}
    (h : s.length < mark.length + tries) : ¬ extendMark s tries mark <:+: s := by
  induction tries generalizing mark with
  | zero =>
    intro hi
    rw [extendMark] at hi
    have := hi.length_le
    omega
  | succ tries ih =>
    rw [extendMark]
    split
    · exact ih (by rw [List.length_cons]; omega)
    · rename_i hc
      rwa [← contains_iff_infix]

/-- The mark for a text is a mark that does not occur in it. -/
theorem markFor_spec (s : List Char) : Mark (markFor s) ∧ ¬ markFor s <:+: s := by
  refine ⟨mark_extendMark s s.length ⟨0, rfl⟩, not_infix_extendMark ?_⟩
  simp [baseMark]

/-! ## Braced texts -/

/-- Every brace of the text belongs to a placeholder, and `names` are the names of the placeholders
in order. -/
inductive Braced : List Char → List (List Char) → Prop
  | nil : Braced [] []
  | char {c : Char} {s : List Char} {names : List (List Char)} (hopen : c ≠ '\x7b')
      (hclose : c ≠ '\x7d') (tail : Braced s names) : Braced (c :: s) names
  | placeholder {name s : List Char} {names : List (List Char)} (hne : name ≠ [])
      (hname : ∀ c ∈ name, isNameChar c = true) (tail : Braced s names) :
      Braced ((Piece.placeholder name).text ++ s) (name :: names)

theorem pieces_cons {c : Char} (h : c ≠ '\x7b') (s : List Char) :
    pieces (c :: s) = .char c :: pieces s := by
  have hname : leadingName? (c :: s) = none := by
    unfold leadingName?
    split
    · rename_i heq
      exact absurd (List.cons.inj heq).1 h
    · rfl
  rw [pieces, hname]

theorem leadingName?_placeholder {name : List Char} (hne : name ≠ [])
    (hname : ∀ c ∈ name, isNameChar c = true) (s : List Char) :
    leadingName? ((Piece.placeholder name).text ++ s) = some name := by
  have htake : (name ++ '\x7d' :: '\x7d' :: s).takeWhile isNameChar = name := by
    rw [List.takeWhile_append_of_pos hname, List.takeWhile_cons_of_neg (by decide),
      List.append_nil]
  have hdrop : (name ++ '\x7d' :: '\x7d' :: s).dropWhile isNameChar = '\x7d' :: '\x7d' :: s := by
    rw [List.dropWhile_append_of_pos hname, List.dropWhile_cons_of_neg (by decide)]
  have htext : (Piece.placeholder name).text ++ s =
      '\x7b' :: '\x7b' :: (name ++ '\x7d' :: '\x7d' :: s) := by
    simp [Piece.text]
  rw [htext, leadingName?]
  simp only [htake, hdrop]
  rw [if_pos]
  simp [hne, List.isPrefixOf]

theorem pieces_placeholder {name : List Char} (hne : name ≠ [])
    (hname : ∀ c ∈ name, isNameChar c = true) (s : List Char) :
    pieces ((Piece.placeholder name).text ++ s) = .placeholder name :: pieces s := by
  have hlead := leadingName?_placeholder hne hname s
  have htext : (Piece.placeholder name).text ++ s =
      '\x7b' :: ('\x7b' :: name ++ "\x7d\x7d".toList ++ s) := by
    simp [Piece.text]
  have hdrop : ('\x7b' :: name ++ "\x7d\x7d".toList ++ s).drop (name.length + 3) = s :=
    List.drop_left' (by simp)
  rw [htext] at hlead ⊢
  rw [pieces, hlead]
  simp only [hdrop]

/-- A braced text is read on its own, whatever follows it. -/
theorem Braced.pieces_append {s : List Char} {names : List (List Char)} (h : Braced s names)
    (t : List Char) : pieces (s ++ t) = pieces s ++ pieces t := by
  induction h with
  | nil => simp [pieces]
  | char hopen hclose tail ih =>
    rw [List.cons_append, pieces_cons hopen, pieces_cons hopen, ih, List.cons_append]
  | placeholder hne hname tail ih =>
    rw [List.append_assoc, pieces_placeholder hne hname, pieces_placeholder hne hname, ih,
      List.cons_append]

theorem Braced.placeholderNames {s : List Char} {names : List (List Char)} (h : Braced s names) :
    placeholderNames (pieces s) = names := by
  induction h with
  | nil => simp [pieces, Url.placeholderNames]
  | char hopen hclose tail ih =>
    rw [pieces_cons hopen]
    simpa [Url.placeholderNames] using ih
  | placeholder hne hname tail ih =>
    rw [pieces_placeholder hne hname]
    simpa [Url.placeholderNames] using ih

theorem Braced.append {s t : List Char} {names more : List (List Char)} (hs : Braced s names)
    (ht : Braced t more) : Braced (s ++ t) (names ++ more) := by
  induction hs with
  | nil => exact ht
  | char hopen hclose tail ih => exact .char hopen hclose ih
  | placeholder hne hname tail ih =>
    rw [List.append_assoc]
    exact .placeholder hne hname ih

/-- A text without braces has no placeholders. -/
theorem braced_of_not_mem {s : List Char} (hopen : '\x7b' ∉ s) (hclose : '\x7d' ∉ s) :
    Braced s [] := by
  induction s with
  | nil => exact .nil
  | cons c s ih =>
    rw [List.mem_cons, not_or] at hopen hclose
    exact .char (Ne.symm hopen.1) (Ne.symm hclose.1) (ih hopen.2 hclose.2)

/-! ## Masked texts -/

/-- A character that may stand in a token. -/
def isTokenChar (c : Char) : Bool := c.isAlphanum || c == '_'

theorem isTokenChar_of_mem_token {mark : List Char} (hm : Mark mark) {number : Nat} {c : Char}
    (h : c ∈ token mark number) : isTokenChar c = true := by
  obtain ⟨n, rfl⟩ := hm
  simp only [token, Nat.toString_eq_repr, Nat.toList_repr, List.mem_append] at h
  rcases h with ((h | h) | h) | h
  · rw [List.eq_of_mem_replicate h]
    decide
  · revert h c
    decide
  · simp [isTokenChar, Char.isAlphanum, Text.isDigit_of_mem_toDigits h]
  · revert h c
    decide

/-- `t` is the text `s` with a token of the mask in place of each placeholder. -/
inductive Masked (m : Mask) : List Char → List Char → Prop
  | nil : Masked m [] []
  | char {c : Char} {s t : List Char} (hopen : c ≠ '\x7b') (tail : Masked m s t) :
      Masked m (c :: s) (c :: t)
  | placeholder {name s t : List Char} {number : Nat} (hne : name ≠ [])
      (hname : ∀ c ∈ name, isNameChar c = true) (hnumber : m.names[number]? = some name)
      (tail : Masked m s t) :
      Masked m ((Piece.placeholder name).text ++ s) (token m.mark number ++ t)

/-- The names from a number on begin with the name of that number. -/
theorem getElem?_of_drop_eq_cons {names rest : List (List Char)} {number : Nat} {name : List Char}
    (h : names.drop number = name :: rest) :
    names[number]? = some name ∧ names.drop (number + 1) = rest := by
  constructor
  · rw [← Nat.add_zero number, ← List.getElem?_drop, h]
    rfl
  · rw [← List.drop_drop, h]
    rfl

/-- Writing the pieces of a braced text with tokens masks it, when the mask knows the names of its
placeholders from the first number on. -/
theorem Braced.masked {m : Mask} {s : List Char} {names : List (List Char)} (h : Braced s names)
    {number : Nat} (hnames : names <+: m.names.drop number) :
    Masked m s (maskFrom m.mark number (pieces s)) := by
  induction h generalizing number with
  | nil =>
    rw [pieces, maskFrom]
    exact .nil
  | char hopen hclose tail ih =>
    rw [pieces_cons hopen, maskFrom]
    exact .char hopen (ih hnames)
  | @placeholder name s names hne hname tail ih =>
    obtain ⟨rest, hrest⟩ := hnames
    obtain ⟨hfirst, htail⟩ := getElem?_of_drop_eq_cons hrest.symm
    rw [pieces_placeholder hne hname, maskFrom]
    exact .placeholder hne hname hfirst (ih ⟨rest, htail.symm⟩)

theorem Masked.cons {m : Mask} {c : Char} {s t : List Char} (hc : c ≠ '\x7b')
    (h : Masked m (c :: s) t) : ∃ t', t = c :: t' ∧ Masked m s t' := by
  generalize hs : c :: s = whole at h
  cases h with
  | nil => exact absurd hs (List.cons_ne_nil c s)
  | char hopen tail =>
    obtain ⟨rfl, rfl⟩ := List.cons.inj hs
    exact ⟨_, rfl, tail⟩
  | placeholder hne hname hnumber tail => exact absurd (List.cons.inj hs).1 hc

theorem Masked.of_placeholder {m : Mask} {name s t : List Char} (hne : name ≠ [])
    (hname : ∀ c ∈ name, isNameChar c = true)
    (h : Masked m ((Piece.placeholder name).text ++ s) t) :
    ∃ number t', m.names[number]? = some name ∧ t = token m.mark number ++ t' ∧
      Masked m s t' := by
  have hlead := leadingName?_placeholder hne hname s
  generalize hs : (Piece.placeholder name).text ++ s = whole at h hlead
  cases h with
  | nil => simp [leadingName?] at hlead
  | char hopen tail => exact absurd (List.cons.inj hs).1.symm hopen
  | placeholder hne' hname' hnumber tail =>
    rw [leadingName?_placeholder hne' hname'] at hlead
    obtain rfl := Option.some.inj hlead
    obtain rfl := List.append_cancel_left hs
    exact ⟨_, _, hnumber, rfl, tail⟩

/-- A masked text is cut where a braced part of the text ends. -/
theorem Masked.split {m : Mask} {a b t : List Char} {names : List (List Char)}
    (ha : Braced a names) (h : Masked m (a ++ b) t) :
    ∃ ta tb, t = ta ++ tb ∧ Masked m a ta ∧ Masked m b tb := by
  induction ha generalizing t with
  | nil => exact ⟨[], t, rfl, .nil, h⟩
  | char hopen hclose tail ih =>
    obtain ⟨t', rfl, h'⟩ := h.cons hopen
    obtain ⟨ta, tb, rfl, hta, htb⟩ := ih h'
    exact ⟨_ :: ta, tb, rfl, .char hopen hta, htb⟩
  | placeholder hne hname tail ih =>
    rw [List.append_assoc] at h
    obtain ⟨number, t', hnumber, rfl, h'⟩ := h.of_placeholder hne hname
    obtain ⟨ta, tb, rfl, hta, htb⟩ := ih h'
    exact ⟨_, tb, (List.append_assoc _ ta tb).symm, .placeholder hne hname hnumber hta, htb⟩

theorem Masked.ne_nil {m : Mask} {s t : List Char} (h : Masked m s t) (hne : s ≠ []) :
    t ≠ [] := by
  cases h with
  | nil => exact absurd rfl hne
  | char hopen tail => exact List.cons_ne_nil _ _
  | placeholder => simp [token]

/-- Masking brings in nothing but tokens. -/
theorem Masked.mem {m : Mask} (hm : Mark m.mark) {s t : List Char} (h : Masked m s t) {c : Char}
    (hc : c ∈ t) : c ∈ s ∨ isTokenChar c = true := by
  induction h with
  | nil => exact .inl hc
  | char hopen tail ih =>
    rcases List.mem_cons.1 hc with rfl | hc
    · exact .inl List.mem_cons_self
    · exact (ih hc).imp_left (List.mem_cons_of_mem _)
  | placeholder hne hname hnumber tail ih =>
    rcases List.mem_append.1 hc with hc | hc
    · exact .inr (isTokenChar_of_mem_token hm hc)
    · exact (ih hc).imp_left (List.mem_append_right _)

/-! ## Covered texts -/

/-- `t` is the text `s` with tokens of the mask in place of placeholders.  Braces may stand anywhere
else in `s`. -/
inductive Mask.Covers (m : Mask) : List Char → List Char → Prop
  | nil : m.Covers [] []
  | char (c : Char) {s t : List Char} (tail : m.Covers s t) : m.Covers (c :: s) (c :: t)
  | placeholder {name s t : List Char} {number : Nat} (hname : ∀ c ∈ name, isNameChar c = true)
      (hnumber : m.names[number]? = some name) (tail : m.Covers s t) :
      m.Covers ((Piece.placeholder name).text ++ s) (token m.mark number ++ t)

theorem Masked.covers {m : Mask} {s t : List Char} (h : Masked m s t) : m.Covers s t := by
  induction h with
  | nil => exact .nil
  | char hopen tail ih => exact .char _ ih
  | placeholder hne hname hnumber tail ih => exact .placeholder hname hnumber ih

/-- A covered text is cut where a character stands that is in no token. -/
theorem Mask.Covers.cut {m : Mask} (hm : Mark m.mark) {sep : Char} (hsep : isTokenChar sep = false)
    {s ta tb : List Char} (h : m.Covers s (ta ++ sep :: tb)) :
    ∃ sa sb, s = sa ++ sep :: sb ∧ m.Covers sa ta ∧ m.Covers sb tb := by
  generalize ht : ta ++ sep :: tb = t at h
  induction h generalizing ta with
  | nil => simp at ht
  | @char c s t tail ih =>
    cases ta with
    | nil =>
      obtain ⟨rfl, rfl⟩ := List.cons.inj ht
      exact ⟨[], s, rfl, .nil, tail⟩
    | cons d ta =>
      rw [List.cons_append, List.cons.injEq] at ht
      obtain ⟨rfl, ht⟩ := ht
      obtain ⟨sa, sb, rfl, ha, hb⟩ := ih ht
      exact ⟨d :: sa, sb, rfl, .char d ha, hb⟩
  | @placeholder name s t number hname hnumber tail ih =>
    have hwhole : ∃ rest, ta = token m.mark number ++ rest ∧ rest ++ sep :: tb = t := by
      rcases List.append_eq_append_iff.1 ht with ⟨rest, htoken, hrest⟩ | ⟨rest, hta, hrest⟩
      · rcases rest with _ | ⟨d, rest⟩
        · exact ⟨[], by simpa using htoken.symm, hrest⟩
        · -- the separator would stand in the token
          obtain ⟨rfl, -⟩ := List.cons.inj hrest
          have hmem : sep ∈ token m.mark number := by simp [htoken]
          rw [isTokenChar_of_mem_token hm hmem] at hsep
          cases hsep
      · exact ⟨rest, hta, hrest.symm⟩
    obtain ⟨rest, rfl, hrest⟩ := hwhole
    obtain ⟨sa, sb, rfl, ha, hb⟩ := ih hrest
    exact ⟨_, sb, (List.append_assoc _ sa _).symm, .placeholder hname hnumber ha, hb⟩

/-- A mark at a character of a covered text stands in the text itself. -/
theorem Mask.Covers.prefix_of_prefix {m : Mask} (hm : Mark m.mark) {s t : List Char}
    (h : m.Covers s t) {before : List Char} (hne : before ≠ []) (hp : m.mark <+: before ++ t) :
    m.mark <+: before ++ s := by
  induction h generalizing before with
  | nil => exact hp
  | @char c s t tail ih =>
    have hstep := ih (by simp : before ++ [c] ≠ []) (by simpa using hp)
    simpa using hstep
  | placeholder hname hnumber tail ih =>
    rw [token, List.append_assoc, List.append_assoc] at hp
    exact (hm.prefix_of_prefix_append hne hp).trans (List.prefix_append _ _)

/-! ## Restored texts -/

theorem leadingDigits?_of_not_prefix {mark s : List Char} (h : ¬ mark <+: s) :
    leadingDigits? mark s = none := by
  rw [leadingDigits?, if_neg]
  simpa [List.isPrefixOf_iff_prefix] using h

theorem leadingDigits?_token (mark : List Char) (number : Nat) (s : List Char) :
    leadingDigits? mark (token mark number ++ s) = some (Nat.toDigits 10 number) := by
  have hdigits : ∀ c ∈ Nat.toDigits 10 number, isDecimal c = true :=
    fun c hc => Text.isDecimal_of_isDigit (Text.isDigit_of_mem_toDigits hc)
  have htext : token mark number ++ s =
      mark ++ (Nat.toDigits 10 number ++ '_' :: '_' :: s) := by
    simp [token]
  have htake : (Nat.toDigits 10 number ++ '_' :: '_' :: s).takeWhile isDecimal =
      Nat.toDigits 10 number := by
    rw [List.takeWhile_append_of_pos hdigits, List.takeWhile_cons_of_neg (by decide),
      List.append_nil]
  have hdrop : (Nat.toDigits 10 number ++ '_' :: '_' :: s).dropWhile isDecimal =
      '_' :: '_' :: s := by
    rw [List.dropWhile_append_of_pos hdigits, List.dropWhile_cons_of_neg (by decide)]
  rw [htext, leadingDigits?, if_pos (by simp [List.isPrefixOf_iff_prefix])]
  simp only [List.drop_left, htake, hdrop]
  rw [if_pos]
  simp [Nat.toDigits_ne_nil, List.isPrefixOf]

/-- The placeholder of a number of few enough digits is found. -/
theorem Mask.placeholder_toDigits_of_le {m : Mask} {number : Nat} {name : List Char}
    (h : m.names[number]? = some name)
    (hlength : (Nat.toDigits 10 number).length ≤ Text.maxNumeralDigits) :
    m.placeholder (Nat.toDigits 10 number) = .ok (Piece.placeholder name).text := by
  rw [Mask.placeholder, if_neg (Nat.not_lt.2 hlength),
    Text.foldl_digitValue? fun c hc => Text.isDigit_of_mem_toDigits hc,
    Nat.ofDigitChars_ten_toDigits, h]

/-- The placeholder of a number is found, unless the number has too many digits. -/
theorem Mask.placeholder_toDigits {m : Mask} {number : Nat} {name : List Char}
    (h : m.names[number]? = some name) :
    m.placeholder (Nat.toDigits 10 number) = .ok (Piece.placeholder name).text ∨
      m.placeholder (Nat.toDigits 10 number) =
        .error (.tooLong (Nat.toDigits 10 number).length) := by
  by_cases hlength : (Nat.toDigits 10 number).length ≤ Text.maxNumeralDigits
  · exact .inl (Mask.placeholder_toDigits_of_le h hlength)
  · right
    rw [Mask.placeholder, if_pos (Nat.lt_of_not_le hlength)]

/-- What follows the first character of a token is as long as reading skips. -/
theorem exists_token_eq_cons {mark : List Char} (hm : Mark mark) (number : Nat) :
    ∃ c tail, token mark number = c :: tail ∧
      tail.length = mark.length + (Nat.toDigits 10 number).length + 1 := by
  obtain ⟨rest, rfl⟩ := hm.exists_cons
  refine ⟨'_', rest ++ (toString number).toList ++ "__".toList, rfl, ?_⟩
  simp
  omega

theorem Mask.restore_cons {m : Mask} {c : Char} {s : List Char} (h : ¬ m.mark <+: c :: s) :
    m.restore (c :: s) = (m.restore s).map (c :: ·) := by
  rw [Mask.restore, leadingDigits?_of_not_prefix h]
  rcases m.restore s with fault | t <;> rfl

theorem Mask.restore_token {m : Mask} (hm : Mark m.mark) (number : Nat) (s : List Char) :
    m.restore (token m.mark number ++ s) = do
      let placeholder ← m.placeholder (Nat.toDigits 10 number)
      let tail ← m.restore s
      return placeholder ++ tail := by
  obtain ⟨c, tail, htoken, hlength⟩ := exists_token_eq_cons hm number
  have hlead := leadingDigits?_token m.mark number s
  rw [htoken, List.cons_append] at hlead ⊢
  rw [Mask.restore, hlead]
  simp only [List.drop_left' hlength]

/-- Restoring a covered text gives the text back, unless a token has a number of too many digits. -/
theorem Mask.Covers.restore {m : Mask} (hm : Mark m.mark) {s t : List Char} (h : m.Covers s t)
    (hfree : ¬ m.mark <:+: s) :
    m.restore t = .ok s ∨ ∃ digits, m.restore t = .error (.tooLong digits) := by
  induction h with
  | nil => exact .inl (by rw [Mask.restore])
  | @char c s t tail ih =>
    have hstart : ¬ m.mark <+: c :: t := fun hp =>
      hfree (tail.prefix_of_prefix hm (by simp : [c] ≠ []) hp).isInfix
    rw [Mask.restore_cons hstart]
    rcases ih fun hi => hfree (hi.trans (List.suffix_cons c s).isInfix) with hok | ⟨digits, herror⟩
    · exact .inl (by rw [hok]; rfl)
    · exact .inr ⟨digits, by rw [herror]; rfl⟩
  | placeholder hname hnumber tail ih =>
    rw [Mask.restore_token hm]
    rcases Mask.placeholder_toDigits hnumber with hp | hp <;> rw [hp]
    · rcases ih fun hi => hfree (hi.trans (List.suffix_append _ _).isInfix) with
        hok | ⟨digits, herror⟩
      · exact .inl (by rw [hok]; rfl)
      · exact .inr ⟨digits, by rw [herror]; rfl⟩
    · exact .inr ⟨_, rfl⟩

end Courier.Url
