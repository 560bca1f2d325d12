import Courier.Script.Textual
import Mathlib.Data.List.Chain
import Mathlib.Data.List.Infix
import Mathlib.Data.List.TakeWhile
import Mathlib.Tactic.Common

/-!
# Substitutions one after the other and at once

A table of substitutions is applied to a line one substitution after the other, each to what the
ones before it have made of the line.  `pass` applies a whole table at once to the line as it was.

`Regular` says what keeps a substitution from disturbing others: its words are names joined by dots,
no name begins inside its replacement, and neither can be mistaken for a part of `function `.  Under
these conditions `Behind` is kept between what stands before a place of the line and of the
rewritten line, so that another substitution fits at the one exactly if it fits at the other
(`Substitution.Regular.length?_pass`).  It follows that a substitution followed by a table is one
table (`pass_pass`), and that a table is applied at once when its substitutions are applied one
after the other (`foldl_apply`).
-/

namespace Courier.Text

/-- Blank characters are no word characters. -/
theorem isWord_of_isBlank {c : Char} (h : isBlank c = true) : isWord c = false := by
  have hcode : c.toNat ∈ List.range' 9 5 ++ List.range' 28 5 ++ [0x85, 0xA0, 0x1680] ++
      List.range' 0x2000 11 ++ [0x2028, 0x2029, 0x202F, 0x205F, 0x3000] := by
    simp only [isBlank, Bool.or_eq_true, Bool.and_eq_true, decide_eq_true_eq, beq_iff_eq] at h
    simp only [List.mem_append, List.mem_range'_1, List.mem_cons, List.not_mem_nil, or_false]
    omega
  have hchar : c = Char.ofNat c.toNat := (Char.ofNat_toNat c).symm
  rw [hchar]
  revert hcode
  generalize c.toNat = n
  revert n
  decide +kernel

end Courier.Text

namespace Courier.Script.Textual

open Courier.Text (isBlank isWord isWord_of_isBlank)

/-- A character that a name may hold. -/
def continuesName (c : Char) : Bool := isWord c || c == '$'

theorem joins_eq (c : Char) : joins c = (continuesName c || c == '.') := rfl

theorem joins_of_continuesName {c : Char} (h : continuesName c = true) : joins c = true := by
  simp [joins_eq, h]

/-! ## A table applied at once -/

/-- What the first substitution of a table that fits at a place puts there, and for how many
characters. -/
def replacement? (table : List Substitution) (before rest : List Char) :
    Option (Nat × List Char) :=
  table.findSome? fun s => (s.length? before rest).map (·, s.target)

/-- Applies a table at once from a place on.  The next `skip` characters have been replaced
already. -/
def passFrom (table : List Substitution) (before : List Char) (skip : Nat) :
    List Char → List Char
  | [] => []
  | c :: rest =>
    match skip with
    | n + 1 => passFrom table (c :: before) n rest
    | 0 =>
      match replacement? table before (c :: rest) with
      | some (n, target) => target ++ passFrom table (c :: before) (n - 1) rest
      | none => c :: passFrom table (c :: before) 0 rest

/-- Applies a table at once. -/
def pass (table : List Substitution) (before text : List Char) : List Char :=
  passFrom table before 0 text

section

variable {table : List Substitution} {s u : Substitution} {before rest text word target : List Char}
  {c : Char}

theorem replacement?_eq_none_iff :
    replacement? table before text = none ↔ ∀ s ∈ table, s.length? before text = none := by
  simp [replacement?]

theorem exists_of_replacement? {n : Nat} (h : replacement? table before text = some (n, target)) :
    ∃ s ∈ table, s.length? before text = some n ∧ s.target = target := by
  obtain ⟨s, hs, hlength⟩ := List.exists_of_findSome?_eq_some h
  obtain ⟨m, hm, heq⟩ := Option.map_eq_some_iff.1 hlength
  cases heq
  exact ⟨s, hs, hm, rfl⟩

theorem replacement?_cons :
    replacement? (s :: table) before text =
      ((s.length? before text).map (·, s.target)).or (replacement? table before text) := by
  rw [replacement?, List.findSome?_cons]
  cases s.length? before text <;> rfl

theorem passFrom_append (table : List Substitution) (before word rest : List Char) :
    passFrom table before word.length (word ++ rest) =
      pass table (word.reverse ++ before) rest := by
  induction word generalizing before with
  | nil => rfl
  | cons c word ih =>
    rw [List.length_cons, List.cons_append, passFrom, ih, List.reverse_cons, List.append_assoc]
    rfl

@[simp] theorem pass_nil (table : List Substitution) (before : List Char) :
    pass table before [] = [] := rfl

/-- Where no substitution fits, a character is kept. -/
theorem pass_keep (h : replacement? table before (c :: rest) = none) :
    pass table before (c :: rest) = c :: pass table (c :: before) rest := by
  rw [pass, passFrom, h]
  rfl

/-- Where a substitution fits, what it replaces is passed over. -/
theorem pass_replace (hword : word ≠ [])
    (h : replacement? table before (word ++ rest) = some (word.length, target)) :
    pass table before (word ++ rest) = target ++ pass table (word.reverse ++ before) rest := by
  obtain ⟨c, word, rfl⟩ := List.exists_cons_of_ne_nil hword
  rw [List.cons_append] at h ⊢
  rw [pass, passFrom, h]
  change target ++ passFrom table (c :: before) word.length (word ++ rest) = _
  rw [passFrom_append, List.reverse_cons, List.append_assoc]
  rfl

/-- A single substitution is a table of its own. -/
theorem apply_eq_pass (s : Substitution) (line : List Char) : s.apply line = pass [s] [] line := by
  have hfrom : ∀ (text before : List Char) (skip : Nat),
      s.applyFrom before skip text = passFrom [s] before skip text := by
    intro text
    induction text with
    | nil => intros; rfl
    | cons c rest ih =>
      intro before skip
      rcases skip with _ | n
      · rw [Substitution.applyFrom, passFrom, replacement?_cons]
        cases s.length? before (c :: rest) with
        | none => simp [replacement?, ih]
        | some n => simp [ih]
      · rw [Substitution.applyFrom, passFrom, ih]
  exact hfrom line [] 0

/-! ## Where a substitution fits -/

theorem endsWord_of_opensCall (h : opensCall rest = true) : endsWord rest = true := by
  rcases rest with _ | ⟨c, rest⟩
  · rfl
  · by_cases hblank : isBlank c = true
    · simp [endsWord, isWord_of_isBlank hblank]
    · have hc : c = '(' := by simpa [opensCall, hblank] using h
      simp [endsWord, hc, (by decide : isWord '(' = false)]

/-- What an ending replaces after the words: nothing, where the last word ends, or parentheses with
blank characters between them. -/
theorem Ending.length?_eq_some {e : Ending} {k : Nat} (h : e.length? rest = some k) :
    (k = 0 ∧ endsWord rest = true) ∨
      e = .emptyCall ∧ ∃ blanks after, rest = '(' :: (blanks ++ ')' :: after) ∧
        (∀ b ∈ blanks, isBlank b = true) ∧ k = blanks.length + 2 := by
  cases e with
  | wordEnd =>
    simp only [Ending.length?, Option.ite_none_right_eq_some, Option.some.injEq] at h
    exact .inl ⟨h.2.symm, h.1⟩
  | notCalled =>
    simp only [Ending.length?, Option.ite_none_right_eq_some, Option.some.injEq,
      Bool.and_eq_true] at h
    exact .inl ⟨h.2.symm, h.1.1⟩
  | called =>
    simp only [Ending.length?, Option.ite_none_right_eq_some, Option.some.injEq] at h
    exact .inl ⟨h.2.symm, endsWord_of_opensCall h.1⟩
  | emptyCall =>
    refine .inr ⟨rfl, ?_⟩
    simp only [Ending.length?] at h
    split at h
    case h_2 => cases h
    case h_1 inner =>
      simp only [Option.ite_none_right_eq_some, Option.some.injEq] at h
      obtain ⟨hclosed, hlength⟩ := h
      obtain ⟨after, hafter⟩ := List.head?_eq_some_iff.1 hclosed
      refine ⟨inner.takeWhile isBlank, after, ?_, fun b hb => List.mem_takeWhile_imp hb,
        hlength.symm⟩
      rw [← hafter, List.takeWhile_append_dropWhile]

/-- Where a substitution fits. -/
theorem Substitution.length?_eq_some_iff {n : Nat} :
    s.length? before text = some n ↔
      beginsName before = true ∧ ¬ (s.sparesDeclared = true ∧ declaringWord <+: before) ∧
        ∃ rest k, text = s.words ++ rest ∧ s.ending.length? rest = some k ∧
          n = s.words.length + k := by
  have hwords : s.words <+: text ↔ ∃ rest, text = s.words ++ rest :=
    ⟨fun ⟨rest, h⟩ => ⟨rest, h.symm⟩, fun ⟨rest, h⟩ => ⟨rest, h.symm⟩⟩
  rw [Substitution.length?]
  split_ifs with hname hdeclared hbegins
  · simp_all
  · simp only [Bool.and_eq_true, List.isPrefixOf_iff_prefix] at hdeclared
    simp [hdeclared]
  · simp only [Bool.not_eq_true', ← Bool.not_eq_true, List.isPrefixOf_iff_prefix, hwords] at hbegins
    constructor
    · intro h
      cases h
    · rintro ⟨-, -, rest, -, h, -⟩
      exact absurd ⟨rest, h⟩ hbegins
  · simp only [Bool.not_eq_true', Bool.not_eq_false, List.isPrefixOf_iff_prefix,
      Bool.and_eq_true] at hname hdeclared hbegins
    obtain ⟨rest, rfl⟩ := hbegins
    rw [List.drop_left, Option.map_eq_some_iff]
    constructor
    · rintro ⟨k, hk, rfl⟩
      exact ⟨hname, hdeclared, rest, k, rfl, hk, rfl⟩
    · rintro ⟨-, -, rest', k, heq, hk, rfl⟩
      obtain rfl := List.append_cancel_left heq
      exact ⟨k, hk, rfl⟩

/-! ## Substitutions that leave others alone -/

/-- No name begins inside the text. -/
def Unbroken (text : List Char) : Prop :=
  text.IsChain fun c d => joins c = true ∨ isWord d = false

instance : DecidablePred Unbroken := fun text =>
  inferInstanceAs (Decidable (text.IsChain fun c d => joins c = true ∨ isWord d = false))

/-- No end of the text is a part of the word that declares a function. -/
def Foreign (text : List Char) : Prop :=
  ∀ part ∈ declaringWord.tails, part ≠ [] → ¬ part <+: text.reverse ∧ ¬ text.reverse <+: part

instance : DecidablePred Foreign := fun text => inferInstanceAs (Decidable
  (∀ part ∈ declaringWord.tails, part ≠ [] → ¬ part <+: text.reverse ∧ ¬ text.reverse <+: part))

/-- The words are a name or a chain of names, and their replacement begins with one.  Neither is
mistaken for a part of a declaration, and no name begins inside the replacement. -/
@[mk_iff]
structure Substitution.Regular (s : Substitution) : Prop where
  head : s.words.head?.any isWord = true
  joined : ∀ c ∈ s.words, joins c = true
  target_head : s.target.head?.any isWord = true
  target_unbroken : Unbroken s.target
  -- Parentheses are replaced by something that ends like them.
  closed : s.ending = .emptyCall → s.target.getLast? = some ')'
  words_foreign : Foreign s.words
  target_foreign : Foreign s.target

instance : DecidablePred Substitution.Regular := fun s =>
  -- Only the characters of the words are looked at.
  haveI := List.decidableBAll (joins · = true) s.words
  decidable_of_iff' _ (Substitution.regular_iff s)

/-- What a substitution replaces, and what comes after it. -/
inductive Substitution.Covers (s : Substitution) : List Char → List Char → Prop
  | words {rest : List Char} (h : endsWord rest = true) : s.Covers s.words rest
  | call {blanks rest : List Char} (hending : s.ending = .emptyCall)
      (hblanks : ∀ b ∈ blanks, isBlank b = true) :
      s.Covers (s.words ++ '(' :: (blanks ++ [')'])) rest

theorem Substitution.exists_covers {n : Nat} (h : s.length? before text = some n) :
    ∃ word rest, text = word ++ rest ∧ word.length = n ∧ s.Covers word rest := by
  obtain ⟨-, -, rest, k, rfl, hk, rfl⟩ := Substitution.length?_eq_some_iff.1 h
  rcases Ending.length?_eq_some hk with ⟨rfl, hend⟩ | ⟨hending, blanks, after, rfl, hblanks, rfl⟩
  · exact ⟨s.words, rest, rfl, rfl, .words hend⟩
  · exact ⟨s.words ++ '(' :: (blanks ++ [')']), after, by simp, by simp, .call hending hblanks⟩

theorem Substitution.covers_of_length?
    (h : s.length? before (word ++ rest) = some word.length) : s.Covers word rest := by
  obtain ⟨word', rest', htext, hlength, hcovers⟩ := Substitution.exists_covers h
  obtain ⟨rfl, rfl⟩ := List.append_inj htext hlength.symm
  exact hcovers

theorem Substitution.Regular.exists_words (h : s.Regular) :
    ∃ c rest, s.words = c :: rest ∧ isWord c = true := by
  have hhead := h.head
  cases hwords : s.words with
  | nil => simp [hwords] at hhead
  | cons c rest => exact ⟨c, rest, rfl, by simpa [hwords] using hhead⟩

theorem Substitution.Regular.exists_target (h : s.Regular) :
    ∃ c rest, s.target = c :: rest ∧ isWord c = true := by
  have hhead := h.target_head
  cases htarget : s.target with
  | nil => simp [htarget] at hhead
  | cons c rest => exact ⟨c, rest, rfl, by simpa [htarget] using hhead⟩

theorem Substitution.Covers.ne_nil (h : s.Covers word rest) (hs : s.Regular) : word ≠ [] := by
  obtain ⟨c, words, hwords, -⟩ := hs.exists_words
  cases h <;> simp [hwords]

theorem unbroken_of_joins (h : ∀ c ∈ word, joins c = true) : Unbroken word := by
  induction word with
  | nil => exact .nil
  | cons c word ih =>
    exact List.isChain_cons.2 ⟨fun _ _ => .inl (h c List.mem_cons_self),
      ih fun d hd => h d (List.mem_cons_of_mem _ hd)⟩

theorem Unbroken.append_of_not_word (h : Unbroken word) (hrest : ∀ d ∈ rest, isWord d = false) :
    Unbroken (word ++ rest) := by
  have hunbroken : Unbroken rest := by
    clear h
    induction rest with
    | nil => exact .nil
    | cons d rest ih =>
      have htail : ∀ e ∈ rest, isWord e = false := fun e he => hrest e (List.mem_cons_of_mem _ he)
      exact List.isChain_cons.2 ⟨fun e he => .inr (htail e (List.mem_of_mem_head? he)), ih htail⟩
  exact List.isChain_append.2
    ⟨h, hunbroken, fun _ _ d hd => .inr (hrest d (List.mem_of_mem_head? hd))⟩

theorem Substitution.Covers.unbroken (h : s.Covers word rest) (hs : s.Regular) :
    Unbroken word := by
  cases h with
  | words hend => exact unbroken_of_joins hs.joined
  | @call blanks _ hending hblanks =>
    refine (unbroken_of_joins hs.joined).append_of_not_word fun d hd => ?_
    rcases List.mem_cons.1 hd with rfl | hd
    · decide
    rcases List.mem_append.1 hd with hd | hd
    · exact isWord_of_isBlank (hblanks d hd)
    · rw [List.mem_singleton.1 hd]
      decide

/-- After joined characters no name begins. -/
theorem beginsName_of_joined (hword : ∀ c ∈ word, joins c = true) (hne : word ≠ [])
    (before : List Char) : beginsName (word.reverse ++ before) = false := by
  rw [← List.dropLast_concat_getLast hne, List.reverse_append]
  simp [beginsName, hword _ (List.getLast_mem hne)]

theorem Substitution.Regular.not_beginsName (h : s.Regular) (before : List Char) :
    beginsName (s.words.reverse ++ before) = false := by
  obtain ⟨c, words, hwords, -⟩ := h.exists_words
  exact beginsName_of_joined h.joined (by simp [hwords]) before

/-! ## Places at which no substitution fits -/

theorem Substitution.length?_of_joined (h : beginsName before = false) :
    s.length? before text = none := by
  simp [Substitution.length?, h]

theorem Substitution.length?_of_not_prefix (s : Substitution) (h : ¬ s.words <+: text) :
    s.length? before text = none := by
  refine Option.eq_none_iff_forall_not_mem.2 fun n hn => ?_
  obtain ⟨-, -, after, -, rfl, -⟩ := Substitution.length?_eq_some_iff.1 hn
  exact h (List.prefix_append _ _)

theorem Substitution.Regular.length?_of_not_word (hs : s.Regular) (h : isWord c = false) :
    s.length? before (c :: rest) = none := by
  obtain ⟨d, words, hwords, hd⟩ := hs.exists_words
  refine Option.eq_none_iff_forall_not_mem.2 fun n hn => ?_
  obtain ⟨-, -, after, k, htext, -⟩ := Substitution.length?_eq_some_iff.1 hn
  rw [hwords, List.cons_append] at htext
  rw [(List.cons.inj htext).1, hd] at h
  cases h

theorem replacement?_of_joined (h : beginsName before = false) :
    replacement? table before text = none :=
  replacement?_eq_none_iff.2 fun _ _ => Substitution.length?_of_joined h

/-- No substitution fits inside an unbroken text. -/
theorem replacement?_of_unbroken (htable : ∀ s ∈ table, s.Regular) {d : Char}
    (h : Unbroken (c :: d :: word)) : replacement? table (c :: before) (d :: rest) = none := by
  rcases (List.isChain_cons_cons.1 h).1 with hjoin | hword
  · exact replacement?_of_joined (by simp [beginsName, hjoin])
  · exact replacement?_eq_none_iff.2 fun s hs => (htable s hs).length?_of_not_word hword

/-- The rest of an unbroken text is kept. -/
theorem pass_unbroken (htable : ∀ s ∈ table, s.Regular) (h : Unbroken (c :: word)) :
    pass table (c :: before) (word ++ rest) =
      word ++ pass table (word.reverse ++ c :: before) rest := by
  induction word generalizing c before with
  | nil => rfl
  | cons d word ih =>
    rw [List.cons_append, pass_keep (replacement?_of_unbroken htable h),
      ih (List.isChain_cons_cons.1 h).2]
    simp

/-- A joined beginning of what follows a name is kept, and nothing else becomes one. -/
theorem prefix_pass_iff (hword : ∀ d ∈ word, joins d = true) (hbefore : beginsName before = false) :
    word <+: pass table before rest ↔ word <+: rest := by
  induction word generalizing before rest with
  | nil => simp
  | cons d word ih =>
    rcases rest with _ | ⟨c, rest⟩
    · simp
    rw [pass_keep (replacement?_of_joined hbefore), List.cons_prefix_cons, List.cons_prefix_cons]
    refine and_congr_right fun heq => ih (fun e he => hword e (List.mem_cons_of_mem _ he)) ?_
    simp [beginsName, ← heq, hword d List.mem_cons_self]

/-! ## What follows the words of a substitution -/

theorem endsWord_pass (hbefore : beginsName before = false) :
    endsWord (pass table before rest) = endsWord rest := by
  rcases rest with _ | ⟨c, rest⟩
  · rfl
  · rw [pass_keep (replacement?_of_joined hbefore)]
    rfl

/-- A character is kept, or words begin both in the text and in what is made of it. -/
theorem pass_cons_cases (htable : ∀ s ∈ table, s.Regular) (before : List Char) (c : Char)
    (rest : List Char) :
    pass table before (c :: rest) = c :: pass table (c :: before) rest ∨
      isWord c = true ∧ ∃ d tail, isWord d = true ∧ pass table before (c :: rest) = d :: tail := by
  rcases hfits : replacement? table before (c :: rest) with _ | ⟨n, target⟩
  · exact .inl (pass_keep hfits)
  · obtain ⟨s, hs, hlength, rfl⟩ := exists_of_replacement? hfits
    obtain ⟨word, after, htext, rfl, hcovers⟩ := Substitution.exists_covers hlength
    have hpass : pass table before (c :: rest) =
        s.target ++ pass table (word.reverse ++ before) after := by
      rw [htext] at hfits ⊢
      exact pass_replace (hcovers.ne_nil (htable s hs)) hfits
    obtain ⟨d, target, htarget, hd⟩ := (htable s hs).exists_target
    have hc : isWord c = true := by
      by_contra hc
      rw [(htable s hs).length?_of_not_word (by simpa using hc)] at hlength
      cases hlength
    exact .inr ⟨hc, d, target ++ pass table (word.reverse ++ before) after, hd,
      by rw [hpass, htarget, List.cons_append]⟩

/-- Blank characters are kept, and what comes after them is changed only where it begins a word. -/
theorem blanks_pass (htable : ∀ s ∈ table, s.Regular) (before rest : List Char) :
    (pass table before rest).takeWhile isBlank = rest.takeWhile isBlank ∧
      ∀ d, isWord d = false → (((pass table before rest).dropWhile isBlank).head? = some d ↔
        (rest.dropWhile isBlank).head? = some d) := by
  induction rest generalizing before with
  | nil => simp
  | cons c rest ih =>
    rcases pass_cons_cases htable before c rest with hkeep | ⟨hc, d, tail, hd, hpass⟩
    · rw [hkeep]
      obtain ⟨hblanks, hhead⟩ := ih (c :: before)
      by_cases hc : isBlank c = true
      · simpa [hc, hblanks] using hhead
      · simp [hc]
    · have hblank : ∀ e, isWord e = true → isBlank e = false := fun e he => by
        by_contra hblank
        rw [isWord_of_isBlank (by simpa using hblank)] at he
        cases he
      rw [hpass]
      simp only [List.takeWhile_cons, List.dropWhile_cons, hblank c hc, hblank d hd,
        Bool.false_eq_true, if_false, List.head?_cons, Option.some.injEq, true_and]
      intro e he
      constructor
      · rintro rfl
        rw [hd] at he
        cases he
      · rintro rfl
        rw [hc] at he
        cases he

/-- After a name, an ending fits exactly if it has fitted before the pass. -/
theorem Ending.length?_pass (e : Ending) (htable : ∀ s ∈ table, s.Regular)
    (hbefore : beginsName before = false) :
    e.length? (pass table before rest) = e.length? rest := by
  have hopens : opensCall (pass table before rest) = opensCall rest := by
    have := (blanks_pass htable before rest).2 '(' (by decide)
    rw [Bool.eq_iff_iff]
    simpa [opensCall] using this
  cases e with
  | wordEnd => simp [Ending.length?, endsWord_pass hbefore]
  | notCalled => simp [Ending.length?, endsWord_pass hbefore, hopens]
  | called => simp [Ending.length?, hopens]
  | emptyCall =>
    rcases rest with _ | ⟨c, rest⟩
    · rfl
    rw [pass_keep (replacement?_of_joined hbefore)]
    by_cases hc : c = '('
    · subst hc
      obtain ⟨hblanks, hhead⟩ := blanks_pass htable ('(' :: before) rest
      simp only [Ending.length?, hblanks, hhead ')' (by decide)]
    · simp [Ending.length?, hc]

/-! ## The same place in two texts -/

/-- What stands before a place of a text and what stands before the same place of the rewritten text
are alike as far as a substitution can see. -/
structure Behind (before before' text : List Char) : Prop where
  names : beginsName before' = beginsName before ∨ endsWord text = true
  declared : ∀ part, part <:+ declaringWord → (part <+: before' ↔ part <+: before)

variable {before' : List Char}

theorem Behind.refl (before text : List Char) : Behind before before text :=
  ⟨.inl rfl, fun _ _ => Iff.rfl⟩

theorem Behind.cons (h : Behind before before' text) (c : Char) (rest : List Char) :
    Behind (c :: before) (c :: before') rest := by
  refine ⟨.inl rfl, fun part hpart => ?_⟩
  rcases part with _ | ⟨d, part⟩
  · simp
  · rw [List.cons_prefix_cons, List.cons_prefix_cons,
      h.declared part ((List.suffix_cons d part).trans hpart)]

theorem Behind.append (h : Behind before before' text) (hword : word ≠ []) (rest : List Char) :
    Behind (word.reverse ++ before) (word.reverse ++ before') rest := by
  induction word generalizing before before' text with
  | nil => exact absurd rfl hword
  | cons c word ih =>
    have hcons := h.cons c rest
    rcases word with _ | ⟨d, word⟩
    · exact hcons
    · simpa using ih hcons (by simp)

theorem Foreign.not_prefix_append (h : Foreign word) {part : List Char} (hpart : part <:+ declaringWord)
    (hne : part ≠ []) (before : List Char) : ¬ part <+: word.reverse ++ before := by
  obtain ⟨hbegins, hbegins'⟩ := h part ((List.mem_tails _ _).2 hpart) hne
  intro hboth
  rcases List.prefix_or_prefix_of_prefix hboth (List.prefix_append _ _) with h | h
  · exact hbegins h
  · exact hbegins' h

theorem Substitution.Covers.foreign (h : s.Covers word rest) (hs : s.Regular) : Foreign word := by
  cases h with
  | words hend => exact hs.words_foreign
  | @call blanks _ hending hblanks =>
    intro part hpart hne
    obtain ⟨d, part, rfl⟩ := List.exists_cons_of_ne_nil hne
    have hd : d ≠ ')' := by
      have hmem : d ∈ declaringWord := ((List.mem_tails _ _).1 hpart).subset List.mem_cons_self
      rintro rfl
      revert hmem
      decide
    simp [List.cons_prefix_cons, hd, hd.symm]

/-- What a substitution replaces and what it puts there are alike to others. -/
theorem Substitution.Covers.behind (h : s.Covers word rest) (hs : s.Regular)
    (before before' : List Char) :
    Behind (word.reverse ++ before) (s.target.reverse ++ before') rest := by
  refine ⟨?_, fun part hpart => ?_⟩
  · cases h with
    | words hend => exact .inr hend
    | @call blanks _ hending hblanks =>
      obtain ⟨target, htarget⟩ := List.getLast?_eq_some_iff.1 (hs.closed hending)
      refine .inl ?_
      rw [htarget]
      simp [beginsName]
  · rcases eq_or_ne part [] with rfl | hne
    · simp
    · exact iff_of_false (hs.target_foreign.not_prefix_append hpart hne before')
        ((h.foreign hs).not_prefix_append hpart hne before)

theorem Substitution.length?_append (s : Substitution) (before rest : List Char) :
    s.length? before (s.words ++ rest) =
      if beginsName before = true ∧ ¬ (s.sparesDeclared = true ∧ declaringWord <+: before) then
        (s.ending.length? rest).map (s.words.length + ·)
      else none := by
  ext n
  simp only [Substitution.length?_eq_some_iff, Option.ite_none_right_eq_some, and_assoc,
    Option.map_eq_some_iff]
  refine and_congr_right fun _ => and_congr_right fun _ => ⟨?_, ?_⟩
  · rintro ⟨rest', k, htext, hk, rfl⟩
    exact ⟨k, (List.append_cancel_left htext) ▸ hk, rfl⟩
  · rintro ⟨k, hk, rfl⟩
    exact ⟨rest, k, rfl, hk, rfl⟩

/-- At a place that a pass keeps, another substitution fits exactly if it has fitted before the
pass, and for as many characters. -/
theorem Substitution.Regular.length?_pass (hu : u.Regular) (htable : ∀ s ∈ table, s.Regular)
    (hbehind : Behind before before' (c :: rest)) :
    u.length? before' (c :: pass table (c :: before) rest) = u.length? before (c :: rest) := by
  by_cases hc : isWord c = true
  case neg =>
    rw [hu.length?_of_not_word (by simpa using hc), hu.length?_of_not_word (by simpa using hc)]
  have hnext : beginsName (c :: before) = false := by simp [beginsName, joins, hc]
  have hnames : beginsName before' = beginsName before :=
    hbehind.names.resolve_right (by simp [endsWord, hc])
  obtain ⟨d, words, hwords, -⟩ := hu.exists_words
  have hjoined : ∀ e ∈ words, joins e = true := fun e he =>
    hu.joined e (hwords ▸ List.mem_cons_of_mem _ he)
  by_cases hbegins : u.words <+: c :: rest
  · obtain ⟨after, hafter⟩ := hbegins
    have hkept : c :: pass table (c :: before) rest =
        u.words ++ pass table (u.words.reverse ++ before) after := by
      rw [hwords, List.cons_append] at hafter
      obtain ⟨rfl, rfl⟩ := List.cons.inj hafter
      rw [pass_unbroken htable (unbroken_of_joins (hwords ▸ hu.joined)), hwords]
      simp
    simp only [hkept, ← hafter, Substitution.length?_append, hnames,
      hbehind.declared declaringWord (List.suffix_refl _),
      Ending.length?_pass _ htable (hu.not_beginsName before)]
  · have hbegins' : ¬ u.words <+: c :: pass table (c :: before) rest := by
      rw [hwords, List.cons_prefix_cons] at hbegins ⊢
      rwa [prefix_pass_iff hjoined hnext]
    rw [u.length?_of_not_prefix hbegins, u.length?_of_not_prefix hbegins']

theorem replacement?_pass {others : List Substitution} (hothers : ∀ u ∈ others, u.Regular)
    (htable : ∀ s ∈ table, s.Regular) (hbehind : Behind before before' (c :: rest)) :
    replacement? others before' (c :: pass table (c :: before) rest) =
      replacement? others before (c :: rest) := by
  induction others with
  | nil => rfl
  | cons u others ih =>
    rw [replacement?_cons, replacement?_cons,
      (hothers u List.mem_cons_self).length?_pass htable hbehind,
      ih fun u' hu' => hothers u' (List.mem_cons_of_mem _ hu')]

/-! ## One substitution more -/

/-- A table is applied by keeping one character where nothing fits, and passing over what a
substitution covers. -/
theorem pass_induction (htable : ∀ s ∈ table, s.Regular) {motive : List Char → List Char → Prop}
    (nil : ∀ before, motive before [])
    (keep : ∀ before c rest, replacement? table before (c :: rest) = none →
      motive (c :: before) rest → motive before (c :: rest))
    (replace : ∀ before word rest s, s ∈ table →
      s.length? before (word ++ rest) = some word.length →
      replacement? table before (word ++ rest) = some (word.length, s.target) →
      motive (word.reverse ++ before) rest → motive before (word ++ rest))
    (before text : List Char) : motive before text := by
  induction hlength : text.length using Nat.strong_induction_on generalizing before text with
  | _ length ih =>
    subst hlength
    rcases text with _ | ⟨c, rest⟩
    · exact nil before
    rcases hfits : replacement? table before (c :: rest) with _ | ⟨n, target⟩
    · exact keep before c rest hfits (ih rest.length (by simp) _ _ rfl)
    · obtain ⟨s, hs, hlength, rfl⟩ := exists_of_replacement? hfits
      obtain ⟨word, after, htext, rfl, hcovers⟩ := Substitution.exists_covers hlength
      have hpos : 0 < word.length := List.length_pos_iff.2 (hcovers.ne_nil (htable s hs))
      rw [htext] at hfits hlength ih ⊢
      refine replace before word after s hs hlength hfits (ih after.length ?_ _ _ rfl)
      rw [List.length_append]
      omega

/-- No name that the other substitution looks for begins where the replacement begins. -/
def Substitution.Unlike (s u : Substitution) : Prop := s.target.head? ≠ u.words.head?

instance : DecidableRel Substitution.Unlike := fun s u =>
  inferInstanceAs (Decidable (s.target.head? ≠ u.words.head?))

theorem Substitution.Regular.length?_target (hu : u.Regular) (hs : s.Regular) (h : s.Unlike u) :
    u.length? before (s.target ++ rest) = none := by
  obtain ⟨d, words, hwords, -⟩ := hu.exists_words
  obtain ⟨c, target, htarget, -⟩ := hs.exists_target
  refine Option.eq_none_iff_forall_not_mem.2 fun n hn => ?_
  obtain ⟨-, -, after, k, htext, -⟩ := Substitution.length?_eq_some_iff.1 hn
  rw [htarget, hwords, List.cons_append, List.cons_append] at htext
  exact h (by rw [htarget, hwords, (List.cons.inj htext).1]; rfl)

/-- What a substitution has put in the text is kept by the others. -/
theorem pass_target (htable : ∀ u ∈ table, u.Regular ∧ s.Unlike u) (hs : s.Regular) :
    pass table before (s.target ++ rest) =
      s.target ++ pass table (s.target.reverse ++ before) rest := by
  have hnone : replacement? table before (s.target ++ rest) = none :=
    replacement?_eq_none_iff.2 fun u hu => (htable u hu).1.length?_target hs (htable u hu).2
  have hunbroken := hs.target_unbroken
  obtain ⟨c, target, htarget, -⟩ := hs.exists_target
  rw [htarget] at hnone hunbroken ⊢
  rw [List.cons_append] at hnone ⊢
  rw [pass_keep hnone, pass_unbroken (fun u hu => (htable u hu).1) hunbroken]
  simp

/-- A substitution followed by a table is one table. -/
theorem pass_pass (hs : s.Regular) (htable : ∀ u ∈ table, u.Regular ∧ s.Unlike u)
    (hbehind : Behind before before' text) :
    pass table before' (pass [s] before text) = pass (s :: table) before text := by
  have hregular : ∀ u ∈ s :: table, u.Regular :=
    List.forall_mem_cons.2 ⟨hs, fun u hu => (htable u hu).1⟩
  have hsingle : ∀ u ∈ [s], u.Regular := by simpa using hs
  have hothers : ∀ u ∈ table, u.Regular := fun u hu => (htable u hu).1
  induction before, text using pass_induction hregular generalizing before' with
  | nil before => rfl
  | keep before c rest hfits ih =>
    obtain ⟨hnone, hrest⟩ := Option.or_eq_none_iff.1 (replacement?_cons.symm.trans hfits)
    have hkeep : replacement? [s] before (c :: rest) = none :=
      replacement?_eq_none_iff.2 (by simpa using hnone)
    rw [pass_keep hkeep, pass_keep hfits,
      pass_keep ((replacement?_pass hothers hsingle hbehind).trans hrest), ih (hbehind.cons c rest)]
  | replace before word rest u hu hlength hfits ih =>
    have hne : word ≠ [] := (Substitution.covers_of_length? hlength).ne_nil (hregular u hu)
    rw [pass_replace hne hfits]
    rw [replacement?_cons] at hfits
    rcases hown : s.length? before (word ++ rest) with _ | n
    · -- Another substitution fits: the first one keeps what it covers.
      have hunbroken := (Substitution.covers_of_length? hlength).unbroken (hregular u hu)
      have hrest : replacement? table before (word ++ rest) = some (word.length, u.target) := by
        simpa [hown] using hfits
      have hkeep : replacement? [s] before (word ++ rest) = none :=
        replacement?_eq_none_iff.2 (by simpa using hown)
      have hkept : pass [s] before (word ++ rest) =
          word ++ pass [s] (word.reverse ++ before) rest := by
        obtain ⟨c, word, rfl⟩ := List.exists_cons_of_ne_nil hne
        rw [List.cons_append] at hkeep ⊢
        rw [pass_keep hkeep, pass_unbroken hsingle hunbroken]
        simp
      have hsame : replacement? table before' (word ++ pass [s] (word.reverse ++ before) rest) =
          some (word.length, u.target) := by
        rw [← hkept, ← hrest]
        obtain ⟨c, word, rfl⟩ := List.exists_cons_of_ne_nil hne
        rw [List.cons_append] at hkeep ⊢
        rw [pass_keep hkeep]
        exact replacement?_pass hothers hsingle hbehind
      rw [hkept, pass_replace hne hsame, ih (hbehind.append hne rest)]
    · -- The first substitution fits: the others keep what it puts there.
      have heq : n = word.length ∧ s.target = u.target := by simpa [hown] using hfits
      obtain ⟨rfl, htarget⟩ := heq
      have hreplace : replacement? [s] before (word ++ rest) = some (word.length, s.target) := by
        rw [replacement?_cons, hown]
        rfl
      rw [pass_replace hne hreplace, pass_target htable hs, htarget, ← htarget,
        ih ((Substitution.covers_of_length? hown).behind hs before before')]

/-! ## Tables -/

/-- Neither of the two words begins with the other. -/
def Substitution.Distinct (s u : Substitution) : Prop :=
  ¬ s.words <+: u.words ∧ ¬ u.words <+: s.words

instance : Std.Symm Substitution.Distinct := ⟨fun _ _ h => h.symm⟩

instance : DecidableRel Substitution.Distinct := fun s u =>
  inferInstanceAs (Decidable (¬ s.words <+: u.words ∧ ¬ u.words <+: s.words))

theorem Substitution.Distinct.irrefl (h : s.Distinct s) : False := h.1 (List.prefix_refl _)

/-- A table of substitutions that leave each other alone, of which at most one fits at a place. -/
@[mk_iff]
structure Compatible (table : List Substitution) : Prop where
  regular : ∀ s ∈ table, s.Regular
  unlike : ∀ s ∈ table, ∀ u ∈ table, s.Unlike u
  distinct : table.Pairwise Substitution.Distinct

instance : DecidablePred Compatible := fun table => decidable_of_iff' _ (compatible_iff table)

theorem Compatible.sublist {others : List Substitution} (h : Compatible table)
    (hsub : others.Sublist table) : Compatible others where
  regular s hs := h.regular s (hsub.subset hs)
  unlike s hs u hu := h.unlike s (hsub.subset hs) u (hsub.subset hu)
  distinct := h.distinct.sublist hsub

theorem Compatible.perm {others : List Substitution} (h : Compatible table)
    (hperm : others.Perm table) : Compatible others where
  regular s hs := h.regular s (hperm.subset hs)
  unlike s hs u hu := h.unlike s (hperm.subset hs) u (hperm.subset hu)
  distinct := (hperm.pairwise_iff fun h => h.symm).2 h.distinct

theorem pass_empty (before text : List Char) : pass [] before text = text := by
  induction text generalizing before with
  | nil => rfl
  | cons c rest ih => rw [pass_keep rfl, ih]

/-- Substitutions applied one after the other are applied at once. -/
theorem foldl_apply (h : Compatible table) (line : List Char) :
    table.foldl (fun line s => s.apply line) line = pass table [] line := by
  induction table generalizing line with
  | nil => rw [pass_empty]; rfl
  | cons s table ih =>
    have htable : ∀ u ∈ table, u.Regular ∧ s.Unlike u := fun u hu =>
      ⟨h.regular u (List.mem_cons_of_mem _ hu),
        h.unlike s List.mem_cons_self u (List.mem_cons_of_mem _ hu)⟩
    rw [List.foldl_cons, ih (h.sublist (List.sublist_cons_self s table)), apply_eq_pass]
    exact pass_pass (h.regular s List.mem_cons_self) htable (.refl [] line)

end

end Courier.Script.Textual
