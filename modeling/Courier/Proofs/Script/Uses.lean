import Courier.Proofs.Script.Code
import Courier.Proofs.Script.Repetition
import Mathlib.Tactic.Common

/-!
# Methods without replacement

A script is marked when one of its lines uses a method of `bru` that has no replacement.  The marker
is found out from the converted lines; `convert_marks` says it of the lines as they are written.

`methodsFrom` lists the methods that a text uses, and `mem_methodsFrom_iff` says where they stand.
A table that `Serves` the methods takes the ones with a replacement off the list and leaves all
others on it, in their order (`methodsFrom_pass`): no use is hidden, since names are kept as a
whole, and none is invented, since no replacement holds the beginning of one.
-/

namespace Courier.Script.Textual

open Courier.Text (isBlank isWord splitOn)

/-- What stands before the name of a method. -/
def bruAccess : List Char := "bru.".toList

/-- The method of `bru` that is used at a place, if there is one. -/
def method? (before text : List Char) : Option (List Char) :=
  if beginsName before && bruAccess.isPrefixOf text && (text.drop 4).head?.any startsName then
    some ((text.drop 4).takeWhile continuesName)
  else none

/-- The methods of `bru` that are used at a place or after it, in order. -/
def methodsFrom (before : List Char) : List Char → List (List Char)
  | [] => []
  | c :: rest => (method? before (c :: rest)).toList ++ methodsFrom (c :: before) rest

/-- The name begins with the name of a method that has a replacement, which ends there. -/
def HasReplacement (name : List Char) : Prop :=
  ∃ pair ∈ variableCalls, pair.1.toList <+: name ∧ endsWord (name.drop pair.1.toList.length) = true

instance : DecidablePred HasReplacement := fun name => inferInstanceAs (Decidable
  (∃ pair ∈ variableCalls, pair.1.toList <+: name ∧
    endsWord (name.drop pair.1.toList.length) = true))

/-- A name: it does not begin with a digit, and consists of word characters and dollar signs. -/
def IsName (name : List Char) : Prop :=
  name.head?.any startsName = true ∧ ∀ c ∈ name, continuesName c = true

/-- The text uses the method `name` of `bru`: no name or access ends before `bru`, and the name of
the method ends where it does. -/
def Uses (text name : List Char) : Prop :=
  ∃ first rest, text = first ++ bruAccess ++ name ++ rest ∧ beginsName first.reverse = true ∧
    IsName name ∧ ∀ c ∈ rest.head?, continuesName c = false

/-- The line is no comment, and its code uses a method of `bru` that has no replacement. -/
def UsesUnmapped (line : List Char) : Prop :=
  isCommentLine line = false ∧ ∃ name, Uses (code line) name ∧ ¬ HasReplacement name

/-- What a table has to do with the methods of `bru`: it replaces those with a replacement where
they end, and has nothing else to do with the letter they begin with. -/
@[mk_iff]
structure Serves (table : List Substitution) : Prop where
  complete : ∀ pair ∈ variableCalls, ∃ s ∈ table, s.words = bruAccess ++ pair.1.toList ∧
    s.ending = .wordEnd ∧ s.sparesDeclared = false
  only : ∀ s ∈ table, s.words.head? = some 'b' → s.ending = .wordEnd ∧
    ∃ pair ∈ variableCalls, s.words = bruAccess ++ pair.1.toList
  target : ∀ s ∈ table, s.target.head? ≠ some 'b'

instance : DecidablePred Serves := fun table => decidable_of_iff' _ (serves_iff table)

section

variable {table : List Substitution} {s : Substitution}
  {before before' rest text word name : List Char} {c : Char}

/-! ## Where a method is used -/

theorem continuesName_of_startsName (h : startsName c = true) : continuesName c = true := by
  simp only [startsName, Bool.or_eq_true, beq_iff_eq] at h
  rcases h with (h | rfl) | rfl
  · have hword : isWord c = true := Text.isWord_of_isAlphanum (by simp [Char.isAlphanum, h])
    simp [continuesName, hword]
  · decide
  · decide

theorem joins_of_mem_bruAccess (h : c ∈ bruAccess) : joins c = true := by
  revert h
  revert c
  decide

theorem IsName.joins (h : IsName name) : ∀ c ∈ bruAccess ++ name, joins c = true := by
  intro c hc
  rcases List.mem_append.1 hc with hc | hc
  · exact joins_of_mem_bruAccess hc
  · exact joins_of_continuesName (h.2 c hc)

/-- A method is used at a place when a name can begin there, and `bru`, a dot and the whole name of
the method follow. -/
theorem method?_eq_some_iff : method? before text = some name ↔
    beginsName before = true ∧ IsName name ∧
      ∃ rest, text = bruAccess ++ name ++ rest ∧ ∀ c ∈ rest.head?, continuesName c = false := by
  rw [method?, Option.ite_none_right_eq_some]
  simp only [Bool.and_eq_true, List.isPrefixOf_iff_prefix, Option.some.injEq, and_assoc]
  refine and_congr_right fun _ => ?_
  constructor
  · rintro ⟨⟨rest, rfl⟩, hstart, rfl⟩
    rw [show 4 = bruAccess.length from rfl, List.drop_left] at hstart ⊢
    refine ⟨⟨?_, fun c hc => List.mem_takeWhile_imp hc⟩, rest.dropWhile continuesName, ?_, ?_⟩
    · rcases rest with _ | ⟨c, rest⟩
      · simp at hstart
      · have hc : startsName c = true := by simpa using hstart
        simp [continuesName_of_startsName hc, hc]
    · rw [List.append_assoc, List.takeWhile_append_dropWhile]
    · intro c hc
      have hnot := List.head?_dropWhile_not continuesName rest
      rw [Option.mem_def.1 hc] at hnot
      simpa using hnot
  · rintro ⟨⟨hstart, hname⟩, rest, rfl, hrest⟩
    rw [List.append_assoc, show 4 = bruAccess.length from rfl, List.drop_left]
    refine ⟨List.prefix_append _ _, ?_, ?_⟩
    · rcases name with _ | ⟨c, name⟩
      · simp at hstart
      · exact hstart
    · rw [takeWhile_append_of_head hrest, List.takeWhile_eq_self_iff]
      exact hname

/-- The methods on the list are those that the text uses. -/
theorem mem_methodsFrom_iff : name ∈ methodsFrom [] text ↔ Uses text name := by
  have hfrom : ∀ text before : List Char, name ∈ methodsFrom before text ↔
      ∃ first rest, text = first ++ bruAccess ++ name ++ rest ∧
        beginsName (first.reverse ++ before) = true ∧ IsName name ∧
        ∀ c ∈ rest.head?, continuesName c = false := by
    intro text
    induction text with
    | nil =>
      intro before
      refine iff_of_false (by simp [methodsFrom]) ?_
      rintro ⟨first, rest, htext, -⟩
      have hlength := congrArg List.length htext
      simp [bruAccess] at hlength
    | cons c text ih =>
      intro before
      rw [methodsFrom, List.mem_append, ih, Option.mem_toList, method?_eq_some_iff]
      constructor
      · rintro (⟨hbegins, hname, rest, htext, hrest⟩ | ⟨first, rest, rfl, hbegins, hname⟩)
        · exact ⟨[], rest, by simpa using htext, hbegins, hname, hrest⟩
        · exact ⟨c :: first, rest, by simp, by simpa using hbegins, hname⟩
      · rintro ⟨first, rest, htext, hbegins, hname, hrest⟩
        rcases first with _ | ⟨d, first⟩
        · exact .inl ⟨hbegins, hname, rest, by simpa using htext, hrest⟩
        · simp only [List.cons_append, List.cons.injEq] at htext
          obtain ⟨rfl, rfl⟩ := htext
          exact .inr ⟨first, rest, rfl, by simpa using hbegins, hname, hrest⟩
  simpa [Uses] using hfrom text []

theorem usesBru_iff : usesBru before text = true ↔ methodsFrom before text ≠ [] := by
  induction text generalizing before with
  | nil => simp [usesBru, methodsFrom]
  | cons c rest ih =>
    have hhere : (beginsName before && "bru.".toList.isPrefixOf (c :: rest) &&
        (rest.drop 3).head?.any startsName) = true ↔ (method? before (c :: rest)).toList ≠ [] := by
      rw [method?]
      split
      · rename_i h
        exact iff_of_true h (by simp)
      · rename_i h
        exact iff_of_false h (by simp)
    rw [usesBru, Bool.or_eq_true, ih, methodsFrom, hhere, ← not_and_or, ← List.append_eq_nil_iff]

/-- No method is used inside an unbroken text. -/
theorem methodsFrom_unbroken (h : Unbroken (c :: word)) (rest : List Char) :
    methodsFrom (c :: before) (word ++ rest) = methodsFrom (word.reverse ++ c :: before) rest := by
  induction word generalizing c before with
  | nil => rfl
  | cons d word ih =>
    obtain ⟨hnext, hrest⟩ := List.isChain_cons_cons.1 h
    have hnone : method? (c :: before) (d :: (word ++ rest)) = none := by
      refine Option.eq_none_iff_forall_not_mem.2 fun name hname => ?_
      obtain ⟨hbegins, -, after, htext, -⟩ := method?_eq_some_iff.1 hname
      rcases hnext with hjoins | hword
      · simp [beginsName, hjoins] at hbegins
      · rw [(List.cons.inj htext).1] at hword
        exact absurd hword (by decide)
    rw [List.cons_append, methodsFrom, hnone, ih hrest]
    simp

/-- In an unbroken text a method can be used at the beginning only. -/
theorem methodsFrom_append (h : Unbroken word) (hword : word ≠ []) (before rest : List Char) :
    methodsFrom before (word ++ rest) =
      (method? before (word ++ rest)).toList ++ methodsFrom (word.reverse ++ before) rest := by
  obtain ⟨c, word, rfl⟩ := List.exists_cons_of_ne_nil hword
  rw [List.cons_append, methodsFrom, methodsFrom_unbroken h]
  simp

/-! ## Methods of a converted text -/

theorem head?_pass (hbefore : beginsName before = false) :
    (pass table before rest).head? = rest.head? := by
  rcases rest with _ | ⟨c, rest⟩
  · rfl
  · rw [pass_keep (replacement?_of_joined hbefore)]
    rfl

theorem head_of_method? (h : method? before (c :: rest) = some name) : c = 'b' := by
  obtain ⟨-, -, after, htext, -⟩ := method?_eq_some_iff.1 h
  exact (List.cons.inj htext).1

/-- At a place that a table keeps, the same method is used as before. -/
theorem method?_pass (htable : ∀ s ∈ table, s.Regular)
    (hbehind : Behind before before' (c :: rest)) :
    method? before' (c :: pass table (c :: before) rest) = method? before (c :: rest) := by
  by_cases hc : c = 'b'
  swap
  · have hnone : ∀ {before rest}, method? before (c :: rest) = none := fun {before rest} =>
      Option.eq_none_iff_forall_not_mem.2 fun name hname => hc (head_of_method? hname)
    rw [hnone, hnone]
  subst hc
  have hword : isWord 'b' = true := by decide
  have hnames : beginsName before' = beginsName before :=
    hbehind.names.resolve_right (by simp [endsWord, hword])
  have hnext : beginsName ('b' :: before) = false := by simp [beginsName, joins, hword]
  ext name
  rw [method?_eq_some_iff, method?_eq_some_iff, hnames]
  refine and_congr_right fun _ => and_congr_right fun hname => ?_
  -- The access and the name after it are joined, so that nothing in them is replaced.
  have htail : ∀ d ∈ bruAccess.tail ++ name, joins d = true := fun d hd =>
    hname.joins d (List.mem_cons_of_mem 'b' hd)
  have hunbroken : Unbroken ('b' :: (bruAccess.tail ++ name)) := unbroken_of_joins hname.joins
  have hlast (after : List Char) :
      (pass table ((bruAccess.tail ++ name).reverse ++ 'b' :: before) after).head? = after.head? :=
    head?_pass (beginsName_of_joined htail (by simp [bruAccess]) _)
  have hsplit (after : List Char) : pass table ('b' :: before) (bruAccess.tail ++ name ++ after) =
      bruAccess.tail ++ name ++
        pass table ((bruAccess.tail ++ name).reverse ++ 'b' :: before) after :=
    pass_unbroken htable hunbroken
  have hcons (after text : List Char) : 'b' :: text = bruAccess ++ name ++ after ↔
      text = bruAccess.tail ++ name ++ after := by
    rw [show bruAccess = 'b' :: bruAccess.tail from rfl]
    simp
  simp only [hcons]
  constructor
  · rintro ⟨after', htext, hafter⟩
    have hprefix : bruAccess.tail ++ name <+: rest := by
      rw [← prefix_pass_iff htail hnext, htext]
      exact List.prefix_append _ _
    obtain ⟨after, rfl⟩ := hprefix
    rw [hsplit] at htext
    refine ⟨after, rfl, ?_⟩
    rwa [← hlast after, List.append_cancel_left htext]
  · rintro ⟨after, rfl, hafter⟩
    exact ⟨_, hsplit after, by rwa [hlast]⟩

/-- Where a method with a replacement is used, a substitution fits. -/
theorem Serves.replacement?_ne_none (h : Serves table) (hname : method? before text = some name)
    (hmapped : HasReplacement name) : replacement? table before text ≠ none := by
  obtain ⟨hbegins, -, rest, rfl, hrest⟩ := method?_eq_some_iff.1 hname
  obtain ⟨pair, hpair, ⟨last, rfl⟩, hend⟩ := hmapped
  rw [List.drop_left] at hend
  obtain ⟨s, hs, hwords, hending, hdeclared⟩ := h.complete pair hpair
  have hends : endsWord (last ++ rest) = true := by
    rcases last with _ | ⟨c, last⟩
    · rcases rest with _ | ⟨c, rest⟩
      · rfl
      · have hc := hrest c rfl
        simp only [continuesName, Bool.or_eq_false_iff] at hc
        simp [endsWord, hc.1]
    · exact hend
  have hfits : s.length? before (bruAccess ++ (pair.1.toList ++ last) ++ rest) =
      some s.words.length := by
    rw [Substitution.length?_eq_some_iff]
    refine ⟨hbegins, by simp [hdeclared], last ++ rest, 0, by simp [hwords], ?_, rfl⟩
    rw [hending, Ending.length?, if_pos hends]
  intro hnone
  rw [replacement?_eq_none_iff.1 hnone s hs] at hfits
  cases hfits

theorem continuesName_of_mem_variableCalls : ∀ pair ∈ variableCalls, ∀ c ∈ pair.1.toList,
    continuesName c = true := by
  decide +kernel

/-- Where a substitution fits, only a method with a replacement is used. -/
theorem Serves.hasReplacement (h : Serves table) (hs : s ∈ table) {n : Nat}
    (hregular : s.Regular) (hlength : s.length? before text = some n)
    (hname : method? before text = some name) : HasReplacement name := by
  obtain ⟨-, -, after, k, rfl, hk, -⟩ := Substitution.length?_eq_some_iff.1 hlength
  obtain ⟨-, -, rest, htext, hrest⟩ := method?_eq_some_iff.1 hname
  have hhead : s.words.head? = some 'b' := by
    obtain ⟨c, words, hwords, -⟩ := hregular.exists_words
    rw [hwords] at hname ⊢
    exact congrArg some (head_of_method? hname)
  obtain ⟨hending, pair, hpair, hwords⟩ := h.only s hs hhead
  have hend : endsWord after = true := by
    rw [hending, Ending.length?, Option.ite_none_right_eq_some] at hk
    exact hk.1
  rw [hwords, List.append_assoc, List.append_assoc] at htext
  have htext := List.append_cancel_left htext
  refine ⟨pair, hpair, ?_⟩
  rcases List.append_eq_append_iff.1 htext with ⟨last, rfl, rfl⟩ | ⟨last, hsplit, rfl⟩
  · refine ⟨List.prefix_append _ _, ?_⟩
    rw [List.drop_left]
    rcases last with _ | ⟨c, last⟩
    · rfl
    · exact hend
  · rcases last with _ | ⟨c, last⟩
    · simp [hsplit, endsWord]
    · -- The name would end inside the name that is replaced.
      have hc := continuesName_of_mem_variableCalls pair hpair c (by simp [hsplit])
      rw [hrest c rfl] at hc
      cases hc

/-- No method is used in a replacement. -/
theorem Serves.methodsFrom_target (h : Serves table) (hs : s ∈ table) (hregular : s.Regular)
    (before rest : List Char) :
    methodsFrom before (s.target ++ rest) = methodsFrom (s.target.reverse ++ before) rest := by
  have htarget := h.target s hs
  have hunbroken := hregular.target_unbroken
  obtain ⟨c, target, hsplit, -⟩ := hregular.exists_target
  have hnone : method? before (s.target ++ rest) = none := by
    rw [hsplit] at htarget ⊢
    refine Option.eq_none_iff_forall_not_mem.2 fun name hname => htarget ?_
    exact congrArg some (head_of_method? hname)
  rw [methodsFrom_append hunbroken (by simp [hsplit]), hnone]
  rfl

/-- A table takes the methods with a replacement off the list. -/
theorem Serves.methodsFrom_pass (h : Serves table) (htable : ∀ s ∈ table, s.Regular)
    (hbehind : Behind before before' text) :
    methodsFrom before' (pass table before text) =
      (methodsFrom before text).filter fun name => ¬ HasReplacement name := by
  induction before, text using pass_induction htable generalizing before' with
  | nil before => rfl
  | keep before c rest hfits ih =>
    have hkept : (method? before (c :: rest)).toList.filter (fun name => ¬ HasReplacement name) =
        (method? before (c :: rest)).toList := by
      refine List.filter_eq_self.2 fun name hname => decide_eq_true fun hmapped => ?_
      exact h.replacement?_ne_none (Option.mem_toList.1 hname) hmapped hfits
    rw [pass_keep hfits, methodsFrom, methodsFrom, method?_pass htable hbehind,
      ih (hbehind.cons c rest), List.filter_append, hkept]
  | replace before word rest s hs hlength hfits ih =>
    have hregular := htable s hs
    have hcovers := Substitution.covers_of_length? hlength
    have hne := hcovers.ne_nil hregular
    have hdropped : (method? before (word ++ rest)).toList.filter
        (fun name => ¬ HasReplacement name) = [] := by
      refine List.filter_eq_nil_iff.2 fun name hname => ?_
      simpa using h.hasReplacement hs hregular hlength (Option.mem_toList.1 hname)
    rw [pass_replace hne hfits, h.methodsFrom_target hs hregular,
      methodsFrom_append (hcovers.unbroken hregular) hne, List.filter_append, hdropped,
      List.nil_append, ih (hcovers.behind hregular before before')]

/-! ## Lines and scripts -/

theorem solid_substitutionsFor (role : Role) : Solid (substitutionsFor role) := by
  cases role <;> decide +kernel

theorem serves_substitutionsFor (role : Role) : Serves (substitutionsFor role) := by
  cases role <;> decide +kernel

theorem usesUnmapped_iff {line : List Char} : UsesUnmapped line ↔ isCommentLine line = false ∧
    ∃ name ∈ methodsFrom [] (code line), ¬ HasReplacement name := by
  simp only [UsesUnmapped, mem_methodsFrom_iff]

instance : DecidablePred UsesUnmapped := fun _ => decidable_of_iff' _ usesUnmapped_iff

/-- The code of a converted line uses the methods without replacement that the code of the line
uses, in their order, and no others. -/
theorem methodsFrom_convertLine (role : Role) (line : List Char) :
    methodsFrom [] (code (convertLine role line)) =
      (methodsFrom [] (code line)).filter fun name => ¬ HasReplacement name := by
  have hregular := (compatible_substitutionsFor role).regular
  rw [convertLine_eq_pass, code_pass hregular (solid_substitutionsFor role)]
  exact (serves_substitutionsFor role).methodsFrom_pass hregular (.refl [] (code line))

theorem isCommentLine_convertLine (role : Role) (line : List Char) :
    isCommentLine (convertLine role line) = isCommentLine line := by
  rw [convertLine_eq_pass, isCommentLine_pass (compatible_substitutionsFor role).regular]

/-- A converted line is found to use `bru` when the line uses a method without replacement. -/
theorem hasUnmappedCall_convertLine (role : Role) (line : List Char) :
    hasUnmappedCall (convertLine role line) = true ↔ UsesUnmapped line := by
  rw [hasUnmappedCall, isCommentLine_convertLine, Bool.and_eq_true, Bool.not_eq_true',
    usesUnmapped_iff]
  refine and_congr_right fun _ => ?_
  change usesBru [] (code (convertLine role line)) = true ↔ _
  rw [usesBru_iff, methodsFrom_convertLine, ne_eq, List.filter_eq_nil_iff]
  simp

/-- A script is marked, once, and a warning is given, once, when one of its lines as they are
written uses a method that has no replacement; otherwise the converted lines are all there is.
Converting a line leaves such uses as they are: the code of the converted line has the same ones in
the same order. -/
theorem convert_marks (script : List Char) (role : Role) :
    let lines := splitOn '\n' script
    let texts := lines.map fun line => String.ofList (convertLine role line)
    (convert script role = if ∃ line ∈ lines, UsesUnmapped line
      then ⟨partialMarker :: texts, [partialWarning], none⟩ else ⟨texts, [], none⟩) ∧
    ∀ line, isCommentLine (convertLine role line) = isCommentLine line ∧
      methodsFrom [] (code (convertLine role line)) =
        (methodsFrom [] (code line)).filter fun name => ¬ HasReplacement name := by
  intro lines texts
  refine ⟨?_, fun line =>
    ⟨isCommentLine_convertLine role line, methodsFrom_convertLine role line⟩⟩
  have hany : (lines.map (convertLine role)).any hasUnmappedCall = true ↔
      ∃ line ∈ lines, UsesUnmapped line := by
    simp only [List.any_map, List.any_eq_true, Function.comp_apply, hasUnmappedCall_convertLine]
  rw [convert, List.map_map]
  exact if_congr hany rfl rfl

example : (convert "bru.setVar('bru.a'); // bru.b\nbru.sleep(1)".toList .test).lines =
    [partialMarker, "pm.environment.set('bru.a'); // bru.b", "bru.sleep(1)"] := by
  decide +kernel

end

end Courier.Script.Textual
