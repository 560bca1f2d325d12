import Courier.Proofs.Script.References
import Mathlib.Tactic.Common

/-!
# Renaming whole variables

A plan renames all that refers to a variable or nothing of it, as long as the variable is left alone
(`planRename_all_or_none`): every identifier that declares it resolves to it, and no function that
stands between it and one of its names declares the name itself.  Where a declarator or the head of
a loop introduces the variable, all of it is renamed.

The condition on functions cannot be dropped.  A node that declares the name is left out with all
that stands below it, also with the parts of a function that its scope does not enclose: the key of
a method that is computed from the variable keeps its old name when a parameter of the method has
that name too (`planRename_splits`).
-/

namespace Courier.Script

variable {source : Source} {name : List Char} {root x : Tree} {above p s : Position}

/-- The node at a position is a function that hides the name. -/
def HidingFunction (source : Source) (name : List Char) (root : Tree) : Position → Prop
  | [] => False
  | t :: above => t.kind.isFunction = true ∧ Hides source name root (t :: above)

/-- What is declared under the name in the scope at a position is left alone: what declares it
resolves to it, and no function hides the name between the scope and a name that refers to it. -/
structure LeftAlone (source : Source) (name : List Char) (root : Tree) (s : Position) : Prop where
  resolves : ∀ x above, Refers source name root x above s → Resolves source name root (x :: above) s
  clear : ∀ x above, Refers source name root x above s →
    Clear (HidingFunction source name root) (x :: above) s

/-! ## Resolving and hiding -/

theorem Resolves.length_lt (h : Resolves source name root p s) : s.length < p.length := by
  induction h with
  | here => exact Nat.lt_succ_self _
  | outward _ _ ih => exact Nat.lt_succ_of_lt ih

theorem Resolves.exists_cons (h : Resolves source name root p s) :
    ∃ t outer, s = t :: outer := by
  induction h with
  | here => exact ⟨_, _, rfl⟩
  | outward _ _ ih => exact ih

/-- Between a name and the scope it resolves to only functions can hide the name. -/
theorem Resolves.clear (h : Resolves source name root p s)
    (hclear : Clear (HidingFunction source name root) p s) :
    Clear (Hides source name root) p s := by
  induction h with
  | here => exact .parent
  | @outward c t above s pass resolves ih =>
    cases hclear with
    | parent => exact absurd resolves.length_lt (Nat.lt_irrefl _)
    | further free clear =>
      refine .further (fun hhides => ?_) (ih clear)
      by_cases hfunction : t.kind.isFunction = true
      · exact free ⟨hfunction, hhides⟩
      · rcases hhides with hdeclares | ⟨hfunction', -⟩
        · exact pass ⟨fun hfunction' => absurd hfunction' hfunction, hdeclares⟩
        · exact hfunction hfunction'

/-- A node that is no function hides nothing on the way to the scope. -/
theorem Clear.pass {c t : Tree} (hkind : t.kind.isFunction = false)
    (h : Clear (HidingFunction source name root) (t :: above) s) :
    Clear (HidingFunction source name root) (c :: t :: above) s :=
  .further (fun hhides => by simp [hhides.1] at hkind) h

theorem LeftAlone.clear_hides (h : LeftAlone source name root s)
    (hrefers : Refers source name root x above s) :
    Clear (Hides source name root) (x :: above) s :=
  (h.resolves x above hrefers).clear (h.clear x above hrefers)

/-- What is found to declare the name on the way up from a name hides it. -/
theorem Clear.redeclares (h : Clear (Hides source name root) p s) (hprogram : IsProgram root)
    (hread : Readable source root) (hp : Under [root] p) :
    Clear (Redeclares source name) p s := by
  refine h.imp hp fun t above hunder hdeclares => ?_
  obtain ⟨b, hb, hhides⟩ := grants_declares name hprogram hread hunder
  rw [Redeclares, hb] at hdeclares
  cases hdeclares
  exact hhides rfl

/-- If the walk down from the scope of a variable comes to one name of what is left alone, it comes
to all of them. -/
theorem LeftAlone.clear_redeclares (h : LeftAlone source name root s) (hprogram : IsProgram root)
    (hread : Readable source root) {t y : Tree} {outer ys : Position}
    (hdeclares : Declares source name root (t :: outer))
    (hclear : Clear (Redeclares source name) (x :: above) (t :: outer))
    (hx : Refers source name root x above s) (hy : Refers source name root y ys s) :
    Clear (Redeclares source name) (y :: ys) (t :: outer) := by
  have hall := (h.clear_hides hy).redeclares hprogram hread hy.under
  rcases (h.clear_hides hx).compare hclear with rfl | ⟨hfree, houter⟩ | ⟨hfree, -⟩
  · exact hall
  · exact hall.trans hfree houter
  · -- the scope would stand between the name and the scope that the name resolves to
    exact absurd (.inl hdeclares) hfree

/-! ## Names and their spans -/

theorem span_lt_of_textOf {t : Tree} (h : source.textOf t = .ok name) (hname : name ≠ []) :
    t.span.start < t.span.stop := by
  by_contra hle
  rw [Source.textOf, Source.slice, Nat.sub_eq_zero_of_le (Nat.le_of_not_lt hle),
    List.take_zero] at h
  cases h
  exact hname rfl

/-- A name is known by its span. -/
theorem Named.eq_of_span_eq (hnest : root.WellNested) (hname : name ≠ []) {y : Tree}
    {outer : Position} (hx : Under [root] (x :: above)) (hy : Under [root] (y :: outer))
    (hxnamed : Named source name x) (hynamed : Named source name y) (hspan : y.span = x.span) :
    y :: outer = x :: above :=
  hx.eq_of_span_eq hnest hy ((hnest x hx.mem_preorder).leaf (.inl hxnamed.1))
    ((hnest y hy.mem_preorder).leaf (.inl hynamed.1)) (span_lt_of_textOf hxnamed.2 hname) hspan

/-! ## All or none -/

/-- Every program has a plan.  Of what is declared in a scope and left alone the plan renames all
names or none, and all of them where a declarator or the head of a loop declares it. -/
theorem planRename_all_or_none (hprogram : IsProgram root) (hnest : root.WellNested)
    (hread : Readable source root) :
    ∃ plan, planRename source .test root = .ok plan ∧
      ∀ s, LeftAlone source reservedName root s →
        ((∀ x above, Refers source reservedName root x above s → Renames plan x) ∨
          ∀ x above, Refers source reservedName root x above s → ¬ Renames plan x) ∧
        (DeclaresVariable source reservedName root s →
          ∀ x above, Refers source reservedName root x above s → Renames plan x) := by
  obtain ⟨plan, hplan, hrenames⟩ := exists_planRename hprogram hnest hread
  refine ⟨plan, hplan, fun s halone => ⟨?_, ?_⟩⟩
  · by_cases hsome : ∃ x above, Refers source reservedName root x above s ∧ Renames plan x
    · obtain ⟨x, above, hx, hxrenamed⟩ := hsome
      obtain ⟨t, outer, hvariable, z, zs, hz, hclear, hznamed, hspan⟩ := (hrenames x).1 hxrenamed
      rw [hx.named.eq_of_span_eq hnest (by decide) hx.under hz hznamed hspan] at hclear
      refine .inl fun y ys hy => (hrenames y).2 ⟨t, outer, hvariable, y, ys, hy.under, ?_,
        hy.named, rfl⟩
      exact halone.clear_redeclares hprogram hread hvariable.declares hclear hx hy
    · exact .inr fun x above hrefers hx => hsome ⟨x, above, hrefers, hx⟩
  · intro hvariable x above hrefers
    obtain ⟨t, outer, rfl⟩ := (halone.resolves x above hrefers).exists_cons
    exact (hrenames x).2 ⟨t, outer, hvariable, x, above, hrefers.under,
      (halone.clear_hides hrefers).redeclares hprogram hread hrefers.under, hrefers.named, rfl⟩

/-! ## A shadowed variable -/

/-- A name that no declarator, loop head or declaration binds refers to the program only by
resolving to it. -/
theorem Refers.resolves_of_program {d t : Tree} {outer : Position}
    (h : Refers source name root x (d :: above) (t :: outer)) (hkind : t.kind = .program)
    (hsites : ∀ u ∈ x :: d :: above, u.variablePattern?.isSome = false)
    (hdeclared : d.kind.isDeclared = false) :
    Resolves source name root (x :: d :: above) (t :: outer) := by
  rcases h.scope with hresolves | hintroduces
  · exact hresolves
  · rcases hintroduces.of_block (by rw [hkind]; rfl) with ⟨site, hmem, hsome⟩ | hsome
    · simp [hsites site hmem] at hsome
    · simp [hdeclared] at hsome

/-- A variable with a use, and a function with a parameter of the same name. -/
def shadowScript : Source :=
  Text.Utf8.encode
    "const responseBody = 1;\nuse(responseBody, (responseBody) => responseBody);".toList

/-- The function in `shadowScript`. -/
def shadowFunction : Tree :=
  .node { kind := .arrowFunction, span := ⟨42, 72⟩ } [
    .node { kind := .formalParameters, span := ⟨42, 56⟩, field := some .parameters } [
      .node { kind := .identifier, span := ⟨43, 55⟩ } []],
    .node { kind := .identifier, span := ⟨60, 72⟩, field := some .body } []]

/-- The tree of `shadowScript`. -/
def shadowTree : Tree :=
  .node { kind := .program, span := ⟨0, 74⟩ } [
    .node { kind := .lexicalDeclaration, span := ⟨0, 23⟩ } [
      .node { kind := .other "const", span := ⟨0, 5⟩, field := some .kind, isNamed := false } [],
      .node { kind := .variableDeclarator, span := ⟨6, 22⟩ } [
        .node { kind := .identifier, span := ⟨6, 18⟩, field := some .name } [],
        .node { kind := .other "number", span := ⟨21, 22⟩, field := some .value } []]],
    .node { kind := .other "expression_statement", span := ⟨24, 74⟩ } [
      .node { kind := .callExpression, span := ⟨24, 73⟩ } [
        .node { kind := .identifier, span := ⟨24, 27⟩, field := some .function } [],
        .node { kind := .other "arguments", span := ⟨27, 73⟩, field := some (.other "arguments") } [
          .node { kind := .identifier, span := ⟨28, 40⟩ } [],
          shadowFunction]]]]

theorem named_shadow : ∀ u ∈ shadowTree.preorder, Named shadowScript reservedName u ↔
    u.span ∈ [⟨6, 18⟩, ⟨28, 40⟩, ⟨43, 55⟩, ⟨60, 72⟩] := by
  decide +kernel

/-- The tree of `shadowScript` is a well nested program whose texts can be read. -/
theorem program_shadow :
    IsProgram shadowTree ∧ shadowTree.WellNested ∧ Readable shadowScript shadowTree := by
  decide +kernel

theorem declaresVariable_shadow :
    DeclaresVariable shadowScript reservedName shadowTree [shadowTree] := by
  have hsite : Under [shadowTree] [_, _, shadowTree] := (Under.refl.nth 0 rfl).nth 1 rfl
  have hname := hsite.nth 0 rfl
  exact ⟨_, _, hname, ((named_shadow _ hname.mem_preorder).2 (by decide)).2, _, _, _, rfl,
    .name (.inl rfl), .block rfl (by decide) (by decide)⟩

theorem declares_shadowFunction (h : Under [shadowTree] (shadowFunction :: above)) :
    Declares shadowScript reservedName shadowTree (shadowFunction :: above) := by
  have hparameter := (h.nth 0 rfl).nth 0 rfl
  exact ⟨_, _, hparameter, ((named_shadow _ hparameter.mem_preorder).2 (by decide)).2,
    .parameter rfl (.inl rfl) (.part rfl List.mem_cons_self (.name (.inl rfl)))⟩

/-- The names outside the function are those of the variable, and nothing stands in their way. -/
theorem leftAlone_shadow : LeftAlone shadowScript reservedName shadowTree [shadowTree] := by
  have hnest : shadowTree.WellNested := program_shadow.2.1
  have hvariable : Under [shadowTree] [_, _, _, shadowTree] :=
    ((Under.refl.nth 0 rfl).nth 1 rfl).nth 0 rfl
  have harguments : Under [shadowTree] [_, _, _, shadowTree] :=
    ((Under.refl.nth 1 rfl).nth 0 rfl).nth 1 rfl
  have huse := harguments.nth 0 rfl
  have hfunction : Under [shadowTree] (shadowFunction :: _) := harguments.nth 1 rfl
  have hparameter := (hfunction.nth 0 rfl).nth 0 rfl
  have hresult := hfunction.nth 1 rfl
  have hprogram := declaresVariable_shadow.declares
  have hdeclares := declares_shadowFunction hfunction
  have hall : ∀ x above, Refers shadowScript reservedName shadowTree x above [shadowTree] →
      Resolves shadowScript reservedName shadowTree (x :: above) [shadowTree] ∧
        Clear (HidingFunction shadowScript reservedName shadowTree) (x :: above) [shadowTree] := by
    intro x above h
    have hat : ∀ {y outer}, Under [shadowTree] (y :: outer) → y.span = x.span →
        y = x ∧ outer = above := by
      intro y outer hy heq
      have hspan := (named_shadow x h.under.mem_preorder).1 h.named
      rw [← heq] at hspan
      have hynamed := (named_shadow y hy.mem_preorder).2 hspan
      exact List.cons.inj (h.named.eq_of_span_eq hnest (by decide) h.under hy hynamed heq)
    have hspan := (named_shadow x h.under.mem_preorder).1 h.named
    simp only [List.mem_cons, List.not_mem_nil, or_false] at hspan
    rcases hspan with hspan | hspan | hspan | hspan
    · obtain ⟨rfl, rfl⟩ := hat hvariable hspan.symm
      exact ⟨.pass rfl (.pass rfl (.here (by decide) hprogram)), .pass rfl (.pass rfl .parent)⟩
    · obtain ⟨rfl, rfl⟩ := hat huse hspan.symm
      exact ⟨.pass rfl (.pass rfl (.pass rfl (.here (by decide) hprogram))),
        .pass rfl (.pass rfl (.pass rfl .parent))⟩
    · -- the parameter and its use resolve to the function, not to the program
      obtain ⟨rfl, rfl⟩ := hat hparameter hspan.symm
      have heq := (h.resolves_of_program rfl (by decide) rfl).unique
        (.pass rfl (.here (by decide) hdeclares))
      exact absurd (congrArg List.length heq) (by decide)
    · obtain ⟨rfl, rfl⟩ := hat hresult hspan.symm
      have heq := (h.resolves_of_program rfl (by decide) rfl).unique (.here (by decide) hdeclares)
      exact absurd (congrArg List.length heq) (by decide)
  exact ⟨fun x above h => (hall x above h).1, fun x above h => (hall x above h).2⟩

/-- The variable is renamed where it is declared and used, next to a parameter of its name. -/
theorem planRename_all_or_none_shadow :
    IsProgram shadowTree ∧ shadowTree.WellNested ∧ Readable shadowScript shadowTree ∧
      LeftAlone shadowScript reservedName shadowTree [shadowTree] ∧
      DeclaresVariable shadowScript reservedName shadowTree [shadowTree] ∧
      ∃ plan, planRename shadowScript .test shadowTree = .ok plan ∧
        ∀ x above, Refers shadowScript reservedName shadowTree x above [shadowTree] →
          Renames plan x := by
  obtain ⟨hprogram, hnest, hread⟩ := program_shadow
  obtain ⟨plan, hplan, hall⟩ := planRename_all_or_none hprogram hnest hread
  exact ⟨hprogram, hnest, hread, leftAlone_shadow, declaresVariable_shadow, plan, hplan,
    (hall _ leftAlone_shadow).2 declaresVariable_shadow⟩

/-! ## A variable in the key of a method -/

/-- A variable in the computed key of a method with a parameter of the same name. -/
def keyScript : Source :=
  Text.Utf8.encode ("const responseBody = \"k\";\nconst o = \x7b " ++
    "[responseBody](responseBody) \x7b return responseBody; \x7d \x7d;").toList

/-- The tree of `keyScript`. -/
def keyTree : Tree :=
  .node { kind := .program, span := ⟨0, 94⟩ } [
    .node { kind := .lexicalDeclaration, span := ⟨0, 25⟩ } [
      .node { kind := .other "const", span := ⟨0, 5⟩, field := some .kind, isNamed := false } [],
      .node { kind := .variableDeclarator, span := ⟨6, 24⟩ } [
        .node { kind := .identifier, span := ⟨6, 18⟩, field := some .name } [],
        .node { kind := .other "string", span := ⟨21, 24⟩, field := some .value } []]],
    .node { kind := .lexicalDeclaration, span := ⟨26, 94⟩ } [
      .node { kind := .other "const", span := ⟨26, 31⟩, field := some .kind, isNamed := false } [],
      .node { kind := .variableDeclarator, span := ⟨32, 93⟩ } [
        .node { kind := .identifier, span := ⟨32, 33⟩, field := some .name } [],
        .node { kind := .other "object", span := ⟨36, 93⟩, field := some .value } [
          .node { kind := .methodDefinition, span := ⟨38, 91⟩ } [
            .node { kind := .other "computed_property_name", span := ⟨38, 52⟩,
                    field := some .name } [
              .node { kind := .identifier, span := ⟨39, 51⟩ } []],
            .node { kind := .formalParameters, span := ⟨52, 66⟩, field := some .parameters } [
              .node { kind := .identifier, span := ⟨53, 65⟩ } []],
            .node { kind := .statementBlock, span := ⟨67, 91⟩, field := some .body } [
              .node { kind := .other "return_statement", span := ⟨69, 89⟩ } [
                .node { kind := .identifier, span := ⟨76, 88⟩ } []]]]]]]]

theorem named_key : ∀ u ∈ keyTree.preorder, Named keyScript reservedName u ↔
    u.span ∈ [⟨6, 18⟩, ⟨39, 51⟩, ⟨53, 65⟩, ⟨76, 88⟩] := by
  decide +kernel

/-- Of two names that refer to one variable, the plan renames the declared one and not the one in
the key. -/
theorem planRename_splits : ∃ plan x above y outer,
    planRename keyScript .test keyTree = .ok plan ∧
      DeclaresVariable keyScript reservedName keyTree [keyTree] ∧
      Refers keyScript reservedName keyTree x above [keyTree] ∧ Renames plan x ∧
      Refers keyScript reservedName keyTree y outer [keyTree] ∧ ¬ Renames plan y := by
  have hvariable : Under [keyTree] [_, _, _, keyTree] :=
    ((Under.refl.nth 0 rfl).nth 1 rfl).nth 0 rfl
  have hmethod : Under [keyTree] [_, _, _, _, keyTree] :=
    (((Under.refl.nth 1 rfl).nth 1 rfl).nth 1 rfl).nth 0 rfl
  have hkey := (hmethod.nth 0 rfl).nth 0 rfl
  have hnamed := (named_key _ hvariable.mem_preorder).2 (by decide)
  have hkeyNamed := (named_key _ hkey.mem_preorder).2 (by decide)
  have hdeclares : DeclaresVariable keyScript reservedName keyTree [keyTree] :=
    ⟨_, _, hvariable, hnamed.2, _, _, _, rfl, .name (.inl rfl),
      .block rfl (by decide) (by decide)⟩
  have hplan : planRename keyScript .test keyTree =
      .ok (some ([⟨6, 18⟩], "parsedResponseBody".toList)) := by
    decide +kernel
  refine ⟨_, _, _, _, _, hplan, hdeclares, ⟨hvariable, hnamed, .inl ?_⟩,
    by simp [Renames, Tree.span, Tree.label], ⟨hkey, hkeyNamed, .inl ?_⟩,
    by simp [Renames, Tree.span, Tree.label]⟩
  · exact .pass rfl (.pass rfl (.here (by decide) hdeclares.declares))
  · -- the method does not enclose its key
    exact .pass rfl (.outward (fun hpass => absurd hpass.1 (by decide))
      (.pass rfl (.pass rfl (.pass rfl (.here (by decide) hdeclares.declares)))))

end Courier.Script
