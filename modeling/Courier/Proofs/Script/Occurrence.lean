import Courier.Proofs.Script.Substitution

/-!
# What a line is rewritten to

`occurrences` lists every place of a line at which a substitution of a table fits, with what it puts
there; `mem_occurrences_iff` says that none is left out.  For a compatible table the occurrences
stand apart from each other (`Compatible.occurrences_apart`), and applying the table at once
replaces each of them (`Compatible.replaceAll_occurrences`).  The order of the table does not matter
(`Compatible.pass_perm`).  The table that scripts are converted by is compatible, which gives
`convertLine_eq_replaceAll`.
-/

namespace Courier.Script.Textual

/-- A place of a line at which a substitution fits: where it begins, how many characters are
replaced, and by what. -/
structure Occurrence where
  start : Nat
  length : Nat
  target : List Char
  deriving DecidableEq, Repr

/-- The occurrences that begin at a place. -/
def occurrencesAt (table : List Substitution) (start : Nat) (before rest : List Char) :
    List Occurrence :=
  table.filterMap fun s => (s.length? before rest).map (⟨start, ·, s.target⟩)

/-- The occurrences that begin at a place or after it. -/
def occurrencesFrom (table : List Substitution) (start : Nat) (before : List Char) :
    List Char → List Occurrence
  | [] => []
  | c :: rest =>
    occurrencesAt table start before (c :: rest) ++
      occurrencesFrom table (start + 1) (c :: before) rest

/-- All occurrences of a table in a line. -/
def occurrences (table : List Substitution) (line : List Char) : List Occurrence :=
  occurrencesFrom table 0 [] line

/-- Replaces occurrences in a text that begins at a position. -/
def replaceFrom (start : Nat) (text : List Char) : List Occurrence → List Char
  | [] => text
  | o :: rest =>
    text.take (o.start - start) ++ o.target ++
      replaceFrom (o.start + o.length) (text.drop (o.start - start + o.length)) rest

/-- Replaces occurrences in a line, and copies what stands between them. -/
def replaceAll (line : List Char) (found : List Occurrence) : List Char := replaceFrom 0 line found

/-- The occurrences stand one after the other between two positions. -/
def Apart (start stop : Nat) : List Occurrence → Prop
  | [] => start ≤ stop
  | o :: rest => start ≤ o.start ∧ 0 < o.length ∧ Apart (o.start + o.length) stop rest

section

variable {table others : List Substitution} {s u : Substitution} {start stop : Nat}
  {before rest text word target : List Char} {c : Char} {found : List Occurrence}

theorem Apart.of_le {mid : Nat} (hmid : start ≤ mid) (h : Apart mid stop found) :
    Apart start stop found := by
  cases found with
  | nil => exact Nat.le_trans hmid h
  | cons o found => exact ⟨Nat.le_trans hmid h.1, h.2⟩

theorem Apart.start_le (h : Apart start stop found) : ∀ o ∈ found, start ≤ o.start := by
  induction found generalizing start with
  | nil => simp
  | cons o found ih =>
    obtain ⟨hstart, -, hrest⟩ := h
    intro o' ho'
    rcases List.mem_cons.1 ho' with rfl | ho'
    · exact hstart
    · have := ih hrest o' ho'
      omega

/-- No two occurrences overlap. -/
theorem Apart.pairwise (h : Apart start stop found) :
    found.Pairwise fun o o' => o.start + o.length ≤ o'.start := by
  induction found generalizing start with
  | nil => exact .nil
  | cons o found ih => exact List.pairwise_cons.2 ⟨h.2.2.start_le, ih h.2.2⟩

/-! ## The occurrences of a table -/

theorem occurrencesAt_eq_nil (h : ∀ s ∈ table, s.length? before text = none) :
    occurrencesAt table start before text = [] := by
  refine List.filterMap_eq_nil_iff.2 fun s hs => ?_
  rw [h s hs]
  rfl

/-- No text begins with the words of two substitutions of a compatible table. -/
theorem Compatible.eq_of_prefix (h : Compatible table) (hs : s ∈ table) (hu : u ∈ table)
    (hwords : s.words <+: text) (hwords' : u.words <+: text) : s = u := by
  by_contra hne
  obtain ⟨hbegins, hbegins'⟩ := h.distinct.forall hs hu hne
  rcases List.prefix_or_prefix_of_prefix hwords hwords' with hboth | hboth
  · exact hbegins hboth
  · exact hbegins' hboth

theorem Substitution.prefix_of_length? {n : Nat} (h : s.length? before text = some n) :
    s.words <+: text := by
  obtain ⟨-, -, rest, -, rfl, -⟩ := Substitution.length?_eq_some_iff.1 h
  exact List.prefix_append _ _

/-- At most one substitution of a compatible table fits at a place. -/
theorem Compatible.eq_of_length? (h : Compatible table) (hs : s ∈ table) (hu : u ∈ table)
    {n m : Nat} (hn : s.length? before text = some n) (hm : u.length? before text = some m) :
    s = u :=
  h.eq_of_prefix hs hu (Substitution.prefix_of_length? hn) (Substitution.prefix_of_length? hm)

theorem Compatible.occurrencesAt_eq (h : Compatible table) (hs : s ∈ table) {n : Nat}
    (hlength : s.length? before text = some n) :
    occurrencesAt table start before text = [⟨start, n, s.target⟩] := by
  induction table with
  | nil => cases hs
  | cons u table ih =>
    have hrest : Compatible table := h.sublist (List.sublist_cons_self u table)
    rw [occurrencesAt, List.filterMap_cons]
    rcases List.mem_cons.1 hs with rfl | hs'
    · have hnone : ∀ v ∈ table, v.length? before text = none := by
        intro v hv
        refine Option.eq_none_iff_forall_not_mem.2 fun m hm => ?_
        obtain rfl := h.eq_of_length? hs (List.mem_cons_of_mem _ hv) hlength hm
        exact ((List.pairwise_cons.1 h.distinct).1 s hv).irrefl
      rw [hlength]
      exact congrArg (_ :: ·) (occurrencesAt_eq_nil hnone)
    · cases hm : u.length? before text with
      | none => exact ih hrest hs'
      | some m =>
        obtain rfl := h.eq_of_length? hs List.mem_cons_self hlength hm
        exact ((List.pairwise_cons.1 h.distinct).1 s hs').irrefl.elim

theorem occurrencesFrom_keep (h : replacement? table before (c :: rest) = none) :
    occurrencesFrom table start before (c :: rest) =
      occurrencesFrom table (start + 1) (c :: before) rest := by
  rw [occurrencesFrom, occurrencesAt_eq_nil (replacement?_eq_none_iff.1 h)]
  rfl

/-- Nothing fits inside an unbroken text. -/
theorem occurrencesFrom_unbroken (htable : ∀ s ∈ table, s.Regular) (h : Unbroken (c :: word)) :
    occurrencesFrom table start (c :: before) (word ++ rest) =
      occurrencesFrom table (start + word.length) (word.reverse ++ c :: before) rest := by
  induction word generalizing c before start with
  | nil => rfl
  | cons d word ih =>
    rw [List.cons_append, occurrencesFrom_keep (replacement?_of_unbroken htable h),
      ih (List.isChain_cons_cons.1 h).2]
    simp [Nat.add_assoc, Nat.add_comm 1]

/-- Where a substitution fits, the next occurrence is after what it covers. -/
theorem Compatible.occurrencesFrom_replace (h : Compatible table) (hs : s ∈ table)
    (hlength : s.length? before (word ++ rest) = some word.length) :
    occurrencesFrom table start before (word ++ rest) =
      ⟨start, word.length, s.target⟩ ::
        occurrencesFrom table (start + word.length) (word.reverse ++ before) rest := by
  have hcovers := Substitution.covers_of_length? hlength
  have hunbroken := hcovers.unbroken (h.regular s hs)
  obtain ⟨c, word, rfl⟩ := List.exists_cons_of_ne_nil (hcovers.ne_nil (h.regular s hs))
  rw [List.cons_append] at hlength ⊢
  rw [occurrencesFrom, h.occurrencesAt_eq hs hlength, occurrencesFrom_unbroken h.regular hunbroken]
  simp [Nat.add_assoc, Nat.add_comm 1]

/-! ## Replacing occurrences -/

theorem replaceFrom_keep (h : Apart (start + 1) stop found) :
    replaceFrom start (c :: rest) found = c :: replaceFrom (start + 1) rest found := by
  cases found with
  | nil => rfl
  | cons o found =>
    obtain ⟨hstart, -, -⟩ := h
    obtain ⟨k, hk⟩ := Nat.exists_eq_add_of_le hstart
    have hfar : o.start - start = k + 1 := by omega
    have hnear : o.start - (start + 1) = k := by omega
    simp [replaceFrom, hfar, hnear, Nat.add_right_comm]

/-- The occurrences of a compatible table stand apart in the text, and applying the table at once
replaces each of them. -/
theorem Compatible.occurrencesFrom_spec (h : Compatible table) (start : Nat)
    (before text : List Char) :
    Apart start (start + text.length) (occurrencesFrom table start before text) ∧
      replaceFrom start text (occurrencesFrom table start before text) =
        pass table before text := by
  induction before, text using pass_induction h.regular generalizing start with
  | nil before => exact ⟨Nat.le_refl _, rfl⟩
  | keep before c rest hfits ih =>
    obtain ⟨hapart, hreplace⟩ := ih (start + 1)
    rw [occurrencesFrom_keep hfits, pass_keep hfits, replaceFrom_keep hapart, hreplace]
    rw [Nat.add_right_comm] at hapart
    exact ⟨hapart.of_le (Nat.le_succ _), rfl⟩
  | replace before word rest s hs hlength hfits ih =>
    have hne := (Substitution.covers_of_length? hlength).ne_nil (h.regular s hs)
    obtain ⟨hapart, hreplace⟩ := ih (start + word.length)
    rw [h.occurrencesFrom_replace hs hlength, pass_replace hne hfits, ← hreplace]
    refine ⟨⟨Nat.le_refl _, List.length_pos_iff.2 hne, ?_⟩, by simp [replaceFrom]⟩
    rwa [List.length_append, ← Nat.add_assoc]

theorem Compatible.occurrences_apart (h : Compatible table) (line : List Char) :
    Apart 0 line.length (occurrences table line) := by
  simpa [occurrences] using (h.occurrencesFrom_spec 0 [] line).1

theorem Compatible.replaceAll_occurrences (h : Compatible table) (line : List Char) :
    replaceAll line (occurrences table line) = pass table [] line :=
  (h.occurrencesFrom_spec 0 [] line).2

/-! ## All occurrences -/

theorem mem_occurrencesAt_iff {o : Occurrence} :
    o ∈ occurrencesAt table start before text ↔
      o.start = start ∧
        ∃ s ∈ table, s.length? before text = some o.length ∧ s.target = o.target := by
  simp only [occurrencesAt, List.mem_filterMap, Option.map_eq_some_iff]
  constructor
  · rintro ⟨s, hs, n, hn, rfl⟩
    exact ⟨rfl, s, hs, hn, rfl⟩
  · rintro ⟨rfl, s, hs, hn, htarget⟩
    exact ⟨s, hs, o.length, hn, by rw [htarget]⟩

/-- The occurrences in a line are the places at which a substitution fits. -/
theorem mem_occurrences_iff (htable : ∀ s ∈ table, s.Regular) {line : List Char} {o : Occurrence} :
    o ∈ occurrences table line ↔
      ∃ first rest, line = first ++ rest ∧ o.start = first.length ∧
        ∃ s ∈ table, s.length? first.reverse rest = some o.length ∧ s.target = o.target := by
  have hfrom : ∀ (text before : List Char) (start : Nat),
      o ∈ occurrencesFrom table start before text ↔
        ∃ first rest, text = first ++ rest ∧ o.start = start + first.length ∧
          ∃ s ∈ table, s.length? (first.reverse ++ before) rest = some o.length ∧
            s.target = o.target := by
    intro text
    induction text with
    | nil =>
      intro before start
      refine iff_of_false (by simp [occurrencesFrom]) ?_
      rintro ⟨first, rest, htext, -, s, hs, hlength, -⟩
      obtain ⟨rfl, rfl⟩ := List.append_eq_nil_iff.1 htext.symm
      obtain ⟨word, rest, htext, -, hcovers⟩ := Substitution.exists_covers hlength
      exact hcovers.ne_nil (htable s hs) (List.append_eq_nil_iff.1 htext.symm).1
    | cons c text ih =>
      intro before start
      rw [occurrencesFrom, List.mem_append, mem_occurrencesAt_iff, ih]
      constructor
      · rintro (⟨hstart, hfits⟩ | ⟨first, rest, rfl, hstart, hfits⟩)
        · exact ⟨[], c :: text, rfl, hstart, hfits⟩
        · refine ⟨c :: first, rest, rfl, ?_, by simpa using hfits⟩
          rw [hstart, List.length_cons]
          omega
      · rintro ⟨first, rest, htext, hstart, hfits⟩
        rcases first with _ | ⟨d, first⟩
        · obtain rfl : c :: text = rest := htext
          exact .inl ⟨hstart, hfits⟩
        · obtain ⟨rfl, rfl⟩ := List.cons.inj htext
          refine .inr ⟨first, rest, rfl, ?_, by simpa using hfits⟩
          rw [hstart, List.length_cons]
          omega
  simpa [occurrences] using hfrom line [] 0

/-! ## The order of a table -/

theorem Compatible.replacement?_eq_some_iff (h : Compatible table) {n : Nat} :
    replacement? table before text = some (n, target) ↔
      ∃ s ∈ table, s.length? before text = some n ∧ s.target = target := by
  refine ⟨exists_of_replacement?, ?_⟩
  rintro ⟨s, hs, hlength, rfl⟩
  cases hfits : replacement? table before text with
  | none =>
    rw [replacement?_eq_none_iff.1 hfits s hs] at hlength
    cases hlength
  | some found =>
    obtain ⟨u, hu, hlength', htarget⟩ := exists_of_replacement? hfits
    obtain rfl := h.eq_of_length? hs hu hlength hlength'
    obtain rfl := Option.some.inj (hlength.symm.trans hlength')
    exact congrArg some (Prod.ext rfl htarget.symm)

/-- A compatible table may be applied in any order. -/
theorem Compatible.pass_perm (h : Compatible table) (hperm : others.Perm table)
    (before text : List Char) : pass others before text = pass table before text := by
  have hothers : Compatible others := h.perm hperm
  have hsame : ∀ before text, replacement? others before text = replacement? table before text := by
    intro before text
    ext ⟨n, target⟩
    rw [hothers.replacement?_eq_some_iff, h.replacement?_eq_some_iff]
    simp only [hperm.mem_iff]
  induction before, text using pass_induction h.regular with
  | nil before => rfl
  | keep before c rest hfits ih =>
    rw [pass_keep hfits, pass_keep ((hsame _ _).trans hfits), ih]
  | replace before word rest s hs hlength hfits ih =>
    have hne := (Substitution.covers_of_length? hlength).ne_nil (h.regular s hs)
    rw [pass_replace hne hfits, pass_replace hne ((hsame _ _).trans hfits), ih]

/-! ## Lines of scripts -/

theorem compatible_substitutions : Compatible substitutions := by
  decide +kernel

theorem compatible_substitutionsFor (role : Role) : Compatible (substitutionsFor role) :=
  compatible_substitutions.sublist List.filter_sublist

theorem convertLine_eq_pass (role : Role) (line : List Char) :
    convertLine role line = pass (substitutionsFor role) [] line :=
  foldl_apply (compatible_substitutionsFor role) line

/-- A line is converted by replacing every occurrence of a substitution in the line as it is
written.  The occurrences do not overlap, and the order of the substitutions does not matter. -/
theorem convertLine_eq_replaceAll (role : Role) (line : List Char) {table : List Substitution}
    (hperm : table.Perm substitutions) :
    (occurrences (substitutionsFor role) line).Pairwise
        (fun o o' => o.start + o.length ≤ o'.start) ∧
      convertLine role line = replaceAll line (occurrences (substitutionsFor role) line) ∧
      (table.filter fun s => role = .test || !s.testOnly).foldl (fun line s => s.apply line) line =
        convertLine role line := by
  have hcompatible := compatible_substitutionsFor role
  have hfilter : (table.filter fun s => role = .test || !s.testOnly).Perm (substitutionsFor role) :=
    hperm.filter _
  refine ⟨(hcompatible.occurrences_apart line).pairwise, ?_, ?_⟩
  · rw [hcompatible.replaceAll_occurrences, convertLine, foldl_apply hcompatible]
  · rw [foldl_apply (hcompatible.perm hfilter), hcompatible.pass_perm hfilter, convertLine,
      foldl_apply hcompatible]

/-- The table may be applied backwards, also where words of one substitution stand beside those of
another and the name in a declaration looks like a call. -/
theorem convertLine_eq_replaceAll_reverse :
    let line := "function test() \x7b test(res.getBody( )); bru.setVar(res.body) \x7d".toList
    substitutions.reverse.Perm substitutions ∧
      (occurrences (substitutionsFor .test) line).map (fun o => (o.start, o.length)) =
        [(18, 4), (23, 14), (40, 10), (51, 8)] ∧
      (occurrences (substitutionsFor .test) line).Pairwise
        (fun o o' => o.start + o.length ≤ o'.start) ∧
      convertLine .test line = replaceAll line (occurrences (substitutionsFor .test) line) ∧
      (substitutions.reverse.filter fun s => Role.test = .test || !s.testOnly).foldl
        (fun line s => s.apply line) line = convertLine .test line := by
  intro line
  have hperm := List.reverse_perm substitutions
  exact ⟨hperm, by decide +kernel, convertLine_eq_replaceAll .test line hperm⟩

end

end Courier.Script.Textual
