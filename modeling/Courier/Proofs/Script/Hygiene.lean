import Courier.Proofs.Script.Renaming
import Courier.Proofs.Script.Rendering
import Mathlib.Tactic.Common

/-!
# Renaming without capture

A plan writes some names of a script under a new name.  `renamedText` is what stands at a node then,
and the scopes of the script are asked about names as they stand then: `DeclaresAfter` and
`ResolvesAfter` are `Declares` and `Resolves` on the renamed script.

* `freeName_eq_ok_iff` says what the new name is.  No name of the script is written like it.
* `Introduces.isName_or`: what binds is a name, or the own name of a declaration or an expression.
  The typed dialect has own names that are no names, those of classes (`HasForeignName`).
* `exists_declares_iff`: only these can bind the new name before the renaming.
* `NearestScope.narrow`: with fewer scopes that declare, a place keeps its scope if that is left.
* `LeftAlone.renamesBinding`: a variable that is left alone is declared under the new name.
* `planRename_hygienic` is the main statement.  Other names refer to what they referred to.  Where
  no own name is the new name, it refers to renamed variables only, and from each place to the
  variable of that place if it is declared under the new name.

The condition on own names cannot be dropped: a class of the typed dialect captures a renamed
variable (`planRename_captured`).
-/

namespace Courier.Script

open Outcome (bind_eq_ok mapError_eq_ok)

variable {source : Source} {name newName : List Char} {root t x : Tree} {above p s : Position}
variable {role : Role} {spans : List Span}

/-! ## The script after a renaming -/

section

variable (source : Source) (plan : List Span × List Char)

/-- The text at a node when the names that a plan selects are written under its new name. -/
def renamedText (t : Tree) : Except Text.Utf8.Fault (List Char) :=
  if t.kind.isName = true ∧ t.span ∈ plan.1 then .ok plan.2 else source.textOf t

/-- After the renaming an identifier of the tree binds the name in the scope at a position. -/
def DeclaresAfter (name : List Char) (root : Tree) (s : Position) : Prop :=
  ∃ x above, Under [root] (x :: above) ∧ renamedText source plan x = .ok name ∧
    Introduces source (x :: above) s

/-- A name that the plan selects is bound in the scope at a position. -/
def RenamesBinding (root : Tree) (s : Position) : Prop :=
  ∃ x above, Under [root] (x :: above) ∧ x.kind.isName = true ∧ x.span ∈ plan.1 ∧
    Introduces source (x :: above) s

/-- A declaration or a named expression has the name as its own, written by a node that is no
name. -/
def HasForeignName (name : List Char) (t : Tree) : Prop :=
  (t.kind.isDeclared = true ∨ t.kind.isNamedExpression = true) ∧
    ∃ own ∈ t.child? .name, own.kind.isName = false ∧ source.textOf own = .ok name

end

/-- From one position the scope at another is the nearest above that declares what is asked for and
encloses the position. -/
inductive NearestScope (Decl : Position → Prop) : Position → Position → Prop
  | here {c t : Tree} {above : Position} (encloses : Encloses t c) (declares : Decl (t :: above)) :
      NearestScope Decl (c :: t :: above) (t :: above)
  | outward {c t : Tree} {above s : Position} (pass : ¬ (Encloses t c ∧ Decl (t :: above)))
      (nearest : NearestScope Decl (t :: above) s) : NearestScope Decl (c :: t :: above) s

/-- From one position the name is, after the renaming, that of the scope at another. -/
def ResolvesAfter (source : Source) (plan : List Span × List Char) (name : List Char)
    (root : Tree) : Position → Position → Prop :=
  NearestScope (DeclaresAfter source plan name root)

instance (source : Source) (name : List Char) (t : Tree) :
    Decidable (HasForeignName source name t) :=
  inferInstanceAs (Decidable (_ ∧ _))

/-! ## Nearest scopes -/

theorem resolves_iff :
    Resolves source name root p s ↔ NearestScope (Declares source name root) p s := by
  constructor
  · intro h
    induction h with
    | here encloses declares => exact .here encloses declares
    | outward pass _ ih => exact .outward pass ih
  · intro h
    induction h with
    | here encloses declares => exact .here encloses declares
    | outward pass _ ih => exact .outward pass ih

theorem NearestScope.declares {Decl : Position → Prop} (h : NearestScope Decl p s) : Decl s := by
  induction h with
  | here _ declares => exact declares
  | outward _ _ ih => exact ih

/-- With fewer scopes that declare, a place keeps its scope if that one still declares. -/
theorem NearestScope.narrow {Decl Decl' : Position → Prop} (himp : ∀ s, Decl' s → Decl s)
    (h : NearestScope Decl p s) (hs : Decl' s) : NearestScope Decl' p s := by
  induction h with
  | here encloses _ => exact .here encloses hs
  | outward pass _ ih => exact .outward (fun hpass => pass ⟨hpass.1, himp _ hpass.2⟩) (ih hs)

/-- A node that opens no scope is passed on the way to the scope. -/
theorem ResolvesAfter.pass {source : Source} {plan : List Span × List Char} {c : Tree}
    (hkind : t.kind.opensScope = false) (h : ResolvesAfter source plan name root (t :: above) s) :
    ResolvesAfter source plan name root (c :: t :: above) s := by
  refine .outward ?_ h
  rintro ⟨-, x, outer, -, -, hintroduces⟩
  simp [hintroduces.opensScope] at hkind

/-! ## What binds a name -/

theorem PatternBinds.isName (h : PatternBinds p (x :: above)) : x.kind.isName = true := by
  generalize hi : x :: above = i at h
  induction h with
  | name kind =>
    cases hi
    rcases kind with kind | kind <;> rw [kind] <;> rfl
  | value _ _ _ ih | left _ _ _ ih | part _ _ _ ih => exact ih hi

/-- What binds is a name, or the own name of a declaration or an expression. -/
theorem Introduces.isName_or (h : Introduces source (x :: above) s) :
    x.kind.isName = true ∨ ∃ d outer, above = d :: outer ∧
      (d.kind.isDeclared = true ∨ d.kind.isNamedExpression = true) ∧ d.child? .name = some x := by
  generalize hi : x :: above = i at h
  cases h with
  | declarator introduces =>
    obtain ⟨site, outer, pattern, -, hbinds, -⟩ := introduces
    subst hi
    exact .inl hbinds.isName
  | declared kind child =>
    cases hi
    exact .inr ⟨_, _, rfl, .inl kind, child⟩
  | ownName kind child =>
    cases hi
    exact .inr ⟨_, _, rfl, .inr kind, child⟩
  | parameter _ _ binds | caught _ _ binds =>
    subst hi
    exact .inl binds.isName

/-- What no name of a tree is written as is declared only by own names that are no names. -/
theorem exists_declares_iff (hfree : ∀ u ∈ root.preorder, ¬ Named source name u) :
    (∃ s, Declares source name root s) ↔ ∃ d ∈ root.preorder, HasForeignName source name d := by
  constructor
  · rintro ⟨s, x, above, hunder, htext, hintroduces⟩
    have hname : ¬ x.kind.isName = true := fun hname =>
      hfree x hunder.mem_preorder ⟨hname, htext⟩
    obtain hname' | ⟨d, outer, rfl, hkind, hchild⟩ := hintroduces.isName_or
    · exact absurd hname' hname
    · have hd : d ∈ root.preorder := (hunder.of_suffix (List.suffix_cons _ _)).mem_preorder
      exact ⟨d, hd, hkind, x, hchild, Bool.eq_false_iff.2 hname, htext⟩
  · rintro ⟨d, hd, hkind, own, hchild, -, htext⟩
    obtain ⟨outer, hunder⟩ := exists_under hd []
    have hown := under_child? hunder hchild
    rcases hkind with hkind | hkind
    · exact ⟨_, own, d :: outer, hown, htext, .declared hkind hchild⟩
    · exact ⟨_, own, d :: outer, hown, htext, .ownName hkind hchild⟩

/-! ## Plans -/

/-- Only a test script has a plan that renames something, and the new name of the plan is free. -/
theorem freeName_of_planRename (h : planRename source role root = .ok (some (spans, newName))) :
    role = .test ∧ freeName source replacementName root = .ok newName := by
  obtain hnone | ⟨hrole, _, _, -, -, hfree, hplan⟩ := planRename_cases h
  · cases hnone
  · cases hplan
    exact ⟨hrole, hfree⟩

section

variable (hspell : ∀ span ∈ spans, source.slice span.start span.stop = .ok reservedName)
include hspell

/-- Names other than the two of a plan are bound where they were. -/
theorem declaresAfter_of_ne (hreserved : name ≠ reservedName) (hnew : name ≠ newName) :
    DeclaresAfter source (spans, newName) name root s ↔ Declares source name root s := by
  have htext : ∀ x, renamedText source (spans, newName) x = .ok name ↔
      source.textOf x = .ok name := by
    intro x
    rw [renamedText]
    split
    · rename_i hselected
      rw [Source.textOf, hspell x.span hselected.2]
      exact ⟨fun h => absurd (Except.ok.inj h).symm hnew,
        fun h => absurd (Except.ok.inj h).symm hreserved⟩
    · rfl
  simp only [DeclaresAfter, Declares, htext]

/-- Where a renamed name is bound, the reserved name was. -/
theorem RenamesBinding.declares (h : RenamesBinding source (spans, newName) root s) :
    Declares source reservedName root s := by
  obtain ⟨x, above, hunder, -, hspan, hintroduces⟩ := h
  exact ⟨x, above, hunder, hspell x.span hspan, hintroduces⟩

end

/-- A new name that nothing declared before is declared by the renamed names. -/
theorem declaresAfter_iff_renamesBinding (hnone : ∀ s, ¬ Declares source newName root s) :
    DeclaresAfter source (spans, newName) newName root s ↔
      RenamesBinding source (spans, newName) root s := by
  constructor
  · rintro ⟨x, above, hunder, htext, hintroduces⟩
    rw [renamedText] at htext
    split at htext
    · rename_i hselected
      exact ⟨x, above, hunder, hselected.1, hselected.2, hintroduces⟩
    · exact absurd ⟨x, above, hunder, htext, hintroduces⟩ (hnone s)
  · rintro ⟨x, above, hunder, hname, hspan, hintroduces⟩
    exact ⟨x, above, hunder, if_pos ⟨hname, hspan⟩, hintroduces⟩

/-- A variable that is left alone is bound under the new name. -/
theorem LeftAlone.renamesBinding (halone : LeftAlone source reservedName root s)
    (hprogram : IsProgram root) (hnest : root.WellNested) (hread : Readable source root)
    (hplan : planRename source .test root = .ok (some (spans, newName)))
    (hvariable : DeclaresVariable source reservedName root s) :
    RenamesBinding source (spans, newName) root s := by
  obtain ⟨plan, hplan', hrenames⟩ := exists_planRename hprogram hnest hread
  obtain rfl : plan = some (spans, newName) := Except.ok.inj (hplan'.symm.trans hplan)
  have ⟨x, above, hunder, htext, hintroduces⟩ := hvariable
  have hname : x.kind.isName = true := by
    obtain ⟨_, _, _, -, hbinds, -⟩ := hintroduces
    exact hbinds.isName
  have hrefers : Refers source reservedName root x above s :=
    ⟨hunder, ⟨hname, htext⟩, .inr (.declarator hintroduces)⟩
  obtain ⟨t, outer, rfl⟩ := (halone.resolves x above hrefers).exists_cons
  obtain ⟨selection, hselection, hspan⟩ := (hrenames x).2 ⟨t, outer, hvariable, x, above, hunder,
    (halone.clear_hides hrefers).redeclares hprogram hread hunder, hrefers.named, rfl⟩
  cases hselection
  exact ⟨x, above, hunder, hname, hspan, .declarator hintroduces⟩

/-- What is printed for an identifier is the text that it has after the renaming. -/
theorem renamedText_of_render {callee : Option Span} {w : Rendering} (hkind : x.kind = .identifier)
    (hleaf : x.children = [])
    (h : Renderer.render ⟨source, role, spans, newName⟩ x callee = .ok w) :
    renamedText source (spans, newName) x = .ok w.text := by
  rw [Renderer.render_eq, hleaf] at h
  simp only [Renderer.renderNode, hkind, Renderer.renderName, if_true] at h
  rw [renamedText]
  split at h
  · rename_i hspan
    cases h
    exact if_pos ⟨by rw [hkind]; rfl, hspan⟩
  · rename_i hspan
    obtain ⟨text, htext, h⟩ := bind_eq_ok.1 h
    cases h
    rw [if_neg fun hselected => hspan hselected.2]
    exact mapError_eq_ok.1 htext

/-- A new name is the first variant that no name of the script is written as, whatever variants the
script uses, and there is one wherever the names of the script can be read.  Where a plan renames
something, its new name is declared before by own names only that are no names.  Other names keep
what they refer to.  Where there is no such own name, the new name refers to renamed variables only,
and from each place to the variable that the reserved name referred to, if that is declared under
the new name.  In a program this is so of every variable that is left alone. -/
theorem planRename_hygienic (source : Source) (root : Tree) :
    (∀ base, (∃ newName, freeName source base root = .ok newName) ↔ NamesReadable source root) ∧
    (∀ base newName, freeName source base root = .ok newName →
      ∃ n ≤ (root.preorder.filter (·.kind.isName)).length,
        newName = nameVariant base n ∧ FirstFree source base root n) ∧
    ∀ role spans newName, planRename source role root = .ok (some (spans, newName)) →
      freeName source replacementName root = .ok newName ∧
      (∀ x callee w, x.kind = .identifier → x.children = [] →
        Renderer.render ⟨source, role, spans, newName⟩ x callee = .ok w →
        renamedText source (spans, newName) x = .ok w.text) ∧
      ((∃ s, Declares source newName root s) ↔
        ∃ d ∈ root.preorder, HasForeignName source newName d) ∧
      (∀ name, name ≠ reservedName → name ≠ newName → ∀ p s,
        ResolvesAfter source (spans, newName) name root p s ↔ Resolves source name root p s) ∧
      ((∀ d ∈ root.preorder, ¬ HasForeignName source newName d) →
        (∀ p s, ResolvesAfter source (spans, newName) newName root p s →
          RenamesBinding source (spans, newName) root s) ∧
        ∀ p s, Resolves source reservedName root p s →
          RenamesBinding source (spans, newName) root s →
          ResolvesAfter source (spans, newName) newName root p s) ∧
      (IsProgram root → root.WellNested → Readable source root →
        ∀ s, LeftAlone source reservedName root s →
          DeclaresVariable source reservedName root s →
          RenamesBinding source (spans, newName) root s) := by
  refine ⟨fun base => ⟨?_, exists_freeName base⟩, fun base newName hnew => ?_,
    fun role spans newName hplan => ?_⟩
  · rintro ⟨newName, hnew⟩
    exact (freeName_eq_ok_iff.1 hnew).1
  · obtain ⟨-, n, heq, hfirst⟩ := freeName_eq_ok_iff.1 hnew
    exact ⟨n, hfirst.le_length, heq, hfirst⟩
  · have hspell := planRename_spell hplan
    obtain ⟨rfl, hnew⟩ := freeName_of_planRename hplan
    obtain ⟨-, n, hvariant, hfirst⟩ := freeName_eq_ok_iff.1 hnew
    have hdeclares : (∃ s, Declares source newName root s) ↔
        ∃ d ∈ root.preorder, HasForeignName source newName d :=
      exists_declares_iff fun u hu => hvariant ▸ hfirst.free u hu
    refine ⟨hnew, fun x callee w hkind hleaf => renamedText_of_render hkind hleaf, hdeclares,
      fun name hreserved hnew p s => ?_, fun hforeign => ?_,
      fun hprogram hnest hread s halone => ?_⟩
    · rw [resolves_iff, ResolvesAfter]
      have hiff : DeclaresAfter source (spans, newName) name root = Declares source name root :=
        funext fun s => propext (declaresAfter_of_ne hspell hreserved hnew)
      rw [hiff]
    · have hnone : ∀ s, ¬ Declares source newName root s := fun s hs => by
        obtain ⟨d, hd, hname⟩ := hdeclares.1 ⟨s, hs⟩
        exact hforeign d hd hname
      refine ⟨fun p s h => (declaresAfter_iff_renamesBinding hnone).1 h.declares,
        fun p s h hrenames => ?_⟩
      have himp : ∀ s, DeclaresAfter source (spans, newName) newName root s →
          Declares source reservedName root s := fun s hs =>
        ((declaresAfter_iff_renamesBinding hnone).1 hs).declares hspell
      exact (resolves_iff.1 h).narrow himp ((declaresAfter_iff_renamesBinding hnone).2 hrenames)
    · exact halone.renamesBinding hprogram hnest hread hplan

/-- In `shadowScript` the first variant of `use` is taken and the second is free.  The variable that
is renamed is what all its names refer to, before and after. -/
theorem planRename_hygienic_shadow : ∃ spans,
    planRename shadowScript .test shadowTree = .ok (some (spans, replacementName)) ∧
      freeName shadowScript "use".toList shadowTree = .ok "use2".toList ∧
      FirstFree shadowScript "use".toList shadowTree 1 ∧
      (∀ d ∈ shadowTree.preorder, ¬ HasForeignName shadowScript replacementName d) ∧
      IsProgram shadowTree ∧ shadowTree.WellNested ∧ Readable shadowScript shadowTree ∧
      LeftAlone shadowScript reservedName shadowTree [shadowTree] ∧
      DeclaresVariable shadowScript reservedName shadowTree [shadowTree] ∧
      ∀ x above, Refers shadowScript reservedName shadowTree x above [shadowTree] →
        Resolves shadowScript reservedName shadowTree (x :: above) [shadowTree] ∧
          ResolvesAfter shadowScript (spans, replacementName) replacementName shadowTree
            (x :: above) [shadowTree] := by
  obtain ⟨-, hfree, hplans⟩ := planRename_hygienic shadowScript shadowTree
  obtain ⟨hprogram, hnest, hread⟩ := program_shadow
  have hplan : planRename shadowScript .test shadowTree =
      .ok (some ([⟨28, 40⟩, ⟨6, 18⟩], replacementName)) := by
    decide +kernel
  have hnew : freeName shadowScript "use".toList shadowTree =
      .ok (nameVariant "use".toList 1) := by
    decide +kernel
  obtain ⟨n, -, heq, hfirst⟩ := hfree _ _ hnew
  obtain rfl := nameVariant_inj heq
  have hforeign : ∀ d ∈ shadowTree.preorder,
      ¬ HasForeignName shadowScript replacementName d := by
    decide
  obtain ⟨-, -, -, -, hown, hbinding⟩ := hplans .test _ _ hplan
  have hrenames := hbinding hprogram hnest hread _ leftAlone_shadow declaresVariable_shadow
  refine ⟨_, hplan, hnew, hfirst, hforeign, hprogram, hnest, hread, leftAlone_shadow,
    declaresVariable_shadow, fun x above hrefers => ?_⟩
  have hresolves := leftAlone_shadow.resolves x above hrefers
  exact ⟨hresolves, (hown hforeign).2 _ _ hresolves hrenames⟩

/-! ## A class under the new name -/

/-- A variable with a use beside a class, in the typed dialect. -/
def classScript : Source :=
  Text.Utf8.encode ("let responseBody: any;\n" ++
    "\x7b class parsedResponseBody \x7b\x7d\n  log(responseBody); \x7d").toList

/-- The block in `classScript`. -/
def classBlock : Tree :=
  .node { kind := .statementBlock, span := ⟨23, 75⟩ } [
    .node { kind := .classDeclaration, span := ⟨25, 52⟩ } [
      .node { kind := .other "type_identifier", span := ⟨31, 49⟩, field := some .name } [],
      .node { kind := .other "class_body", span := ⟨50, 52⟩, field := some .body } []],
    .node { kind := .other "expression_statement", span := ⟨55, 73⟩ } [
      .node { kind := .callExpression, span := ⟨55, 72⟩ } [
        .node { kind := .identifier, span := ⟨55, 58⟩, field := some .function } [],
        .node { kind := .other "arguments", span := ⟨58, 72⟩, field := some (.other "arguments") } [
          .node { kind := .identifier, span := ⟨59, 71⟩ } []]]]]

/-- The tree of `classScript`. -/
def classTree : Tree :=
  .node { kind := .program, span := ⟨0, 75⟩ } [
    .node { kind := .lexicalDeclaration, span := ⟨0, 22⟩ } [
      .node { kind := .other "let", span := ⟨0, 3⟩, field := some .kind, isNamed := false } [],
      .node { kind := .variableDeclarator, span := ⟨4, 21⟩ } [
        .node { kind := .identifier, span := ⟨4, 16⟩, field := some .name } [],
        .node { kind := .other "type_annotation", span := ⟨16, 21⟩,
                field := some (.other "type") } [
          .node { kind := .other "predefined_type", span := ⟨18, 21⟩ } []]]],
    classBlock]

/-- Of `classScript` only names are written as the reserved name, one in the declaration and one in
the use.  The class has the replacement as its name, and the plan gives it to the two names. -/
theorem plan_class : classTree.WellNested ∧
    (∀ u ∈ classTree.preorder,
      (classScript.textOf u = .ok reservedName → Named classScript reservedName u) ∧
        (Named classScript reservedName u ↔ u.span = ⟨4, 16⟩ ∨ u.span = ⟨59, 71⟩)) ∧
    classScript.slice 31 49 = .ok replacementName ∧
    planRename classScript .test classTree =
      .ok (some ([⟨59, 71⟩, ⟨4, 16⟩], replacementName)) := by
  decide +kernel

/-- The variable is not declared in the block. -/
theorem not_declares_classBlock :
    ¬ Declares classScript reservedName classTree [classBlock, classTree] := by
  obtain ⟨hnest, hnames, -, -⟩ := plan_class
  rintro ⟨x, above, hunder, htext, hintroduces⟩
  have hnamed := (hnames x hunder.mem_preorder).1 htext
  rcases (hnames x hunder.mem_preorder).2.1 hnamed with hspan | hspan
  · have hvariable : Under [classTree] [_, _, _, classTree] :=
      ((Under.refl.nth 0 rfl).nth 1 rfl).nth 0 rfl
    obtain ⟨rfl, rfl⟩ := List.cons.inj (hnamed.eq_of_span_eq hnest (by decide) hunder hvariable
      ((hnames _ hvariable.mem_preorder).2.2 (.inl rfl)) hspan.symm)
    have heq := List.suffix_iff_eq_drop.1 hintroduces.suffix
    exact absurd (congrArg (fun p : Position => p.map Tree.span) heq) (by decide)
  · have huse : Under [classTree] [_, _, _, _, classBlock, classTree] :=
      ((((Under.refl.nth 1 rfl).nth 1 rfl).nth 0 rfl).nth 1 rfl).nth 0 rfl
    obtain ⟨rfl, rfl⟩ := List.cons.inj (hnamed.eq_of_span_eq hnest (by decide) hunder huse
      ((hnames _ huse.mem_preorder).2.2 (.inr rfl)) hspan.symm)
    rcases hintroduces.of_block rfl with ⟨site, hmem, hsome⟩ | hdeclared
    · revert site
      decide
    · exact absurd hdeclared (by decide)

/-- The class has the new name before the renaming.  A use of the variable, which is renamed, refers
to the variable before and to the class after. -/
theorem planRename_captured : ∃ spans newName x above,
    planRename classScript .test classTree = .ok (some (spans, newName)) ∧
      Declares classScript newName classTree [classBlock, classTree] ∧
      Under [classTree] (x :: above) ∧ Renames (some (spans, newName)) x ∧
      Resolves classScript reservedName classTree (x :: above) [classTree] ∧
      ResolvesAfter classScript (spans, newName) newName classTree (x :: above)
        [classBlock, classTree] := by
  obtain ⟨-, -, htext, hplan⟩ := plan_class
  have hvariable : Under [classTree] [_, _, _, classTree] :=
    ((Under.refl.nth 0 rfl).nth 1 rfl).nth 0 rfl
  have hbinding : RenamesBinding classScript ([⟨59, 71⟩, ⟨4, 16⟩], replacementName) classTree
      [classTree] :=
    ⟨_, _, hvariable, rfl, by decide, .declarator ⟨_, _, _, rfl, .name (.inl rfl),
      .block rfl (by decide) (by decide)⟩⟩
  have hdeclares := hbinding.declares (planRename_spell hplan)
  have hclass : Under [classTree] [_, _, classBlock, classTree] :=
    ((Under.refl.nth 1 rfl).nth 0 rfl).nth 0 rfl
  have huse : Under [classTree] [_, _, _, _, classBlock, classTree] :=
    ((((Under.refl.nth 1 rfl).nth 1 rfl).nth 0 rfl).nth 1 rfl).nth 0 rfl
  refine ⟨_, _, _, _, hplan, ⟨_, _, hclass, htext, .declared rfl rfl⟩, huse,
    ⟨_, rfl, by decide⟩, ?_, ?_⟩
  · exact .pass rfl (.pass rfl (.pass rfl (.outward
      (fun hpass => not_declares_classBlock hpass.2) (.here (by decide) hdeclares))))
  · exact .pass rfl (.pass rfl (.pass rfl (.here (by decide)
      ⟨_, _, hclass, (if_neg (by decide)).trans htext, .declared rfl rfl⟩)))

end Courier.Script
