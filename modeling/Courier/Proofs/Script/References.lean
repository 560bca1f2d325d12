import Courier.Proofs.Script.FreshName
import Courier.Proofs.Script.Scope
import Courier.Proofs.Script.Shadowing
import Courier.Script.Rendering
import Mathlib.Tactic.Common

/-!
# What a renaming reaches

The spans that `planRename` selects, said without the walk that finds them.  From the scope of every
variable of the name, the walk goes down and leaves out each node that is found to declare the name
again with all that stands below it; `Reached` says that it comes to a span.
`exists_planRename` is the statement for whole programs.  It holds for every well nested program
whose texts can be read, and such a program always has a plan.
-/

namespace Courier.Script

open Outcome

variable {source : Source} {name : List Char} {root t : Tree} {above : Position}

/-- The node at a position is found to declare the name. -/
def Redeclares (source : Source) (name : List Char) : Position → Prop
  | [] => False
  | t :: _ => declares source name t = .ok true

/-- A name of the span stands below the position `s`, and no node between them is found to declare
the name. -/
def Reached (source : Source) (name : List Char) (root : Tree) (s : Position) (span : Span) :
    Prop :=
  ∃ x above, Under [root] (x :: above) ∧ Clear (Redeclares source name) (x :: above) s ∧
    Named source name x ∧ x.span = span

/-! ## The walk -/

variable (name) in
theorem answers_isNamed (hread : Readable source t) :
    Answers (isNamed source name t) (Named source name t) := by
  rw [isNamed]
  split
  · rename_i hname
    exact (answers_spells hread).congr ⟨fun htext => ⟨hname, htext⟩, And.right⟩
  · rename_i hname
    exact answers_no fun hnamed => hname hnamed.1

/-- In a subtree the walk finds the names that no declaration cuts off from above the subtree. -/
theorem collects_referencesBelow (above : Position) (hnest : t.WellNested)
    (hread : Readable source t)
    (hanswer : ∀ u ∈ t.preorder, ∃ b, declares source name u = .ok b) :
    Collects (referencesBelow source name t) fun span => ∃ x outer,
      Under (t :: above) (x :: outer) ∧ Clear (Redeclares source name) (x :: outer) above ∧
        Named source name x ∧ x.span = span := by
  induction t using Tree.induct generalizing above with
  | step t ih =>
    rw [referencesBelow_eq]
    obtain ⟨isReference, hreference, hnamed⟩ := answers_isNamed name hread
    rw [hreference]
    rcases isReference with _ | _
    · obtain ⟨isDeclared, hdeclared⟩ := hanswer t t.mem_preorder_self
      rw [hdeclared]
      have hself : ¬ Named source name t := by simp [← hnamed]
      rcases isDeclared with _ | _
      · have hbelow := Collects.flatten t.children.reverse fun c hc => by
          have hc := List.mem_reverse.1 hc
          exact ih c hc (t :: above) (hnest.child hc) (hread.child hc)
            fun u hu => hanswer u (Tree.mem_preorder_of_child hc hu)
        refine Collects.congr hbelow fun span => ⟨?_, ?_⟩
        · rintro ⟨c, hc, x, outer, hunder, hclear, hx⟩
          refine ⟨x, outer, under_iff.2 (.inr ⟨c, List.mem_reverse.1 hc, hunder⟩), ?_, hx⟩
          exact hclear.trans (by simp [Redeclares, hdeclared]) .parent
        · rintro ⟨x, outer, hunder, hclear, hx⟩
          rcases hunder.cases_child with heq | ⟨c, hc, hunder⟩
          · cases heq
            exact absurd hx.1 hself
          · exact ⟨c, List.mem_reverse.2 hc, x, outer, hunder, (hclear.cut hunder).2, hx⟩
      · refine collects_nil fun span => ?_
        rintro ⟨x, outer, hunder, hclear, hx⟩
        rcases hunder.cases_child with heq | ⟨c, hc, hunder⟩
        · cases heq
          exact hself hx.1
        · exact (hclear.cut hunder).1 hdeclared
    · have hself : Named source name t := hnamed.1 rfl
      refine ⟨[t.span], rfl, fun span => ⟨?_, ?_⟩⟩
      · intro hspan
        exact ⟨t, above, .refl, .parent, hself, (List.mem_singleton.1 hspan).symm⟩
      · rintro ⟨x, outer, hunder, -, -, rfl⟩
        rcases hunder.cases_child with heq | ⟨c, hc, -⟩
        · cases heq
          exact List.mem_singleton_self _
        · -- a name has no children
          rw [hnest.nested.leaf (.inl hself.1)] at hc
          simp at hc

/-- From a scope the walk finds what is reached from it. -/
theorem collects_references (hprogram : IsProgram root) (hnest : root.WellNested)
    (hread : Readable source root) (hunder : Under [root] (t :: above)) :
    Collects (references source name t) (Reached source name root (t :: above)) := by
  have hbelow := Collects.flatten t.children.reverse
    (f := referencesBelow source name) fun c hc => by
      have hc' := hunder.child (List.mem_reverse.1 hc)
      have hmem : ∀ u ∈ c.preorder, u ∈ root.preorder := fun u hu =>
        Tree.preorder_trans hc'.mem_preorder hu
      exact collects_referencesBelow (t :: above) (fun u hu => hnest u (hmem u hu))
        (hread.under hc') fun u hu => exists_declares name hprogram hread (hmem u hu)
  refine Collects.congr hbelow fun span => ⟨?_, ?_⟩
  · rintro ⟨c, hc, x, outer, hx, hrest⟩
    exact ⟨x, outer, (hunder.child (List.mem_reverse.1 hc)).trans hx, hrest⟩
  · rintro ⟨x, outer, hx, hclear, hrest⟩
    obtain ⟨-, c, hc, hx⟩ := hclear.under hx
    exact ⟨c, List.mem_reverse.2 hc, x, outer, hx, hclear, hrest⟩

/-! ## Declarations -/

/-- A node binds the name when the pattern of a declarator or a loop head does. -/
def Declaration.BindsName (source : Source) (name : List Char) (d : Declaration) : Prop :=
  ∃ pattern, d.site.variablePattern? = some pattern ∧
    Script.BindsName source name (pattern :: d.site :: d.ancestors)

variable (name) in
theorem answers_declared (hread : Readable source t) (above : Position) :
    Answers (binds source name t.variablePattern?)
      (Declaration.BindsName source name ⟨t, above⟩) := by
  rcases hpattern : t.variablePattern? with _ | pattern
  · exact answers_no fun ⟨_, hsome, _⟩ => by simp [hpattern] at hsome
  · have hanswers : Answers (binds source name (some pattern)) _ :=
      answers_binds (hread.child (mem_of_variablePattern? hpattern)) (t :: above)
    refine hanswers.congr ⟨?_, ?_⟩
    · exact fun hbinds => ⟨pattern, hpattern, hbinds⟩
    · rintro ⟨_, hsome, hbinds⟩
      rw [hpattern] at hsome
      cases hsome
      exact hbinds

theorem declarations_eq (t : Tree) (above : Position) : declarations source name t above = (do
    let own ← binds source name t.variablePattern? >>= fun declared =>
      pure (if declared then [⟨t, above⟩] else [])
    let below ← t.children.reverse.mapM (fun c => declarations source name c (t :: above)) >>=
      fun lists => pure lists.flatten
    return own ++ below) := by
  rw [declarations, Tree.fold_node, ← List.map_reverse, List.mapM_map, Tree.variablePattern?]
  simp only [bind_assoc, pure_bind]
  split
  · rfl
  · split
    · rfl
    · rfl

variable (name) in
/-- The declarators and loop heads that are found are those that bind the name. -/
theorem collects_declarations (hread : Readable source t) (above : Position) :
    Collects (declarations source name t above) fun d =>
      Under (t :: above) (d.site :: d.ancestors) ∧ d.BindsName source name := by
  induction t using Tree.induct generalizing above with
  | step t ih =>
    have hown : Collects (binds source name t.variablePattern? >>= fun declared =>
          pure (if declared then [Declaration.mk t above] else []))
        fun d => d = ⟨t, above⟩ ∧ d.BindsName source name := by
      obtain ⟨declared, hdeclared, hbinds⟩ := answers_declared name hread above
      rw [hdeclared]
      rcases declared with _ | _
      · refine collects_nil ?_
        rintro d ⟨rfl, hsite⟩
        simpa using hbinds.2 hsite
      · refine ⟨[⟨t, above⟩], rfl, fun d => ?_⟩
        rw [List.mem_singleton]
        exact ⟨fun heq => ⟨heq, heq ▸ hbinds.1 rfl⟩, And.left⟩
    have hbelow := Collects.flatten t.children.reverse fun c hc =>
      ih c (List.mem_reverse.1 hc) (hread.child (List.mem_reverse.1 hc)) (t :: above)
    rw [declarations_eq]
    refine (hown.append hbelow).congr fun d => ?_
    rw [under_iff]
    constructor
    · rintro (⟨rfl, hsite⟩ | ⟨c, hc, hunder, hsite⟩)
      · exact ⟨.inl rfl, hsite⟩
      · exact ⟨.inr ⟨c, List.mem_reverse.1 hc, hunder⟩, hsite⟩
    · rintro ⟨heq | ⟨c, hc, hunder⟩, hsite⟩
      · obtain ⟨site, ancestors⟩ := d
        cases heq
        exact .inl ⟨rfl, hsite⟩
      · exact .inr ⟨c, List.mem_reverse.2 hc, hunder, hsite⟩

/-! ## Scopes of declarations -/

theorem VariableScope.unique {site s s' : Position} (h : VariableScope source site s)
    (h' : VariableScope source site s') : s = s' := by
  cases h <;> cases h' <;> simp_all

variable (source) in
/-- Every declarator and every loop head of a program has a scope. -/
theorem exists_variableScope (hprogram : IsProgram root) (hunder : Under [root] (t :: above))
    {pattern : Tree} (hpattern : t.variablePattern? = some pattern) :
    ∃ s, VariableScope source (t :: above) s := by
  rw [Tree.variablePattern?] at hpattern
  split at hpattern
  · rename_i hkind
    rcases above with _ | ⟨declaration, above⟩
    · -- the only node with nothing above it is the program
      cases hunder with
      | refl => simp [hprogram.kind] at hkind
    by_cases hword : declaration.kind = .variableDeclaration
    · exact ⟨_, .var hkind hword⟩
    rcases above with _ | ⟨parent, above⟩
    · exact ⟨_, .block hkind hword (by simp)⟩
    by_cases hfor : parent.kind = .forStatement
    · exact ⟨_, .head hkind hword hfor⟩
    · exact ⟨_, .block hkind hword (by simpa using hfor)⟩
  · split at hpattern
    · rename_i hloop
      simp only [Bool.and_eq_true, decide_eq_true_eq, Option.isSome_iff_exists] at hloop
      obtain ⟨hkind, word, hword⟩ := hloop
      by_cases htext : source.textOf word = .ok "var".toList
      · exact ⟨_, .loopVar hkind hword htext⟩
      · exact ⟨_, .loop hkind hword htext⟩
    · simp at hpattern

theorem scope_of_declarator (hkind : t.kind = .variableDeclarator) (above : Position) :
    Declaration.scope source ⟨t, above⟩ = .ok (declaratorScope above) := by
  rw [Declaration.scope, if_neg (by simp [hkind])]
  rfl

/-- The scope that is found for a declaration is the node at the position of its scope. -/
theorem scope_eq (hread : Readable source t) {s : Position}
    (h : VariableScope source (t :: above) s) :
    Declaration.scope source ⟨t, above⟩ = .ok s.head? := by
  cases h with
  | var site word =>
    rw [scope_of_declarator site]
    simp [declaratorScope, word, ← find?_eq_head?_nearest]
  | head site word kind =>
    rw [scope_of_declarator site]
    simp [declaratorScope, word, kind]
  | @block _ _ above site word kind =>
    rw [scope_of_declarator site]
    rcases above with _ | ⟨parent, above⟩
    · simp [declaratorScope, word, nearest]
    · simp [declaratorScope, word, kind parent rfl, ← find?_eq_head?_nearest]
  | loopVar site child text =>
    obtain ⟨b, hb, hvar⟩ := loopDeclaresVar?_eq_ok hread child
    rw [Declaration.scope, if_pos site, hb, hvar.2 text, ← find?_eq_head?_nearest]
    rfl
  | loop site child text =>
    obtain ⟨b, hb, hvar⟩ := loopDeclaresVar?_eq_ok hread child
    have hno : b = false := Bool.eq_false_iff.2 fun hyes => text (hvar.1 hyes)
    rw [Declaration.scope, if_pos site, hb, hno]
    rfl

/-! ## Plans -/

variable (name) in
/-- All declarations of a variable together reach what is reached from one of their scopes. -/
theorem collects_declaredReferences (hprogram : IsProgram root) (hnest : root.WellNested)
    (hread : Readable source root) :
    Collects (declaredReferences source name root) fun span => ∃ t above,
      DeclaresVariable source name root (t :: above) ∧
        Reached source name root (t :: above) span := by
  obtain ⟨found, hfound, hmem⟩ := collects_declarations name hread []
  rw [declaredReferences, hfound]
  refine Collects.congr (Collects.flatten found
    (R := fun d span => ∃ t above, VariableScope source (d.site :: d.ancestors) (t :: above) ∧
      Reached source name root (t :: above) span) fun d hd => ?_) fun span => ⟨?_, ?_⟩
  · obtain ⟨hunder, pattern, hpattern, -⟩ := (hmem d).1 hd
    obtain ⟨s, hs⟩ := exists_variableScope source hprogram hunder hpattern
    rw [scope_eq (hread.under hunder) hs]
    rcases s with _ | ⟨t, above⟩
    · refine collects_nil fun span ⟨t, above, hscope, _⟩ => ?_
      cases hscope.unique hs
    · have hunder' := hunder.of_suffix hs.suffix
      refine Collects.congr (collects_references hprogram hnest hread hunder') fun span => ?_
      constructor
      · exact fun hreached => ⟨t, above, hs, hreached⟩
      · rintro ⟨t', above', hscope, hreached⟩
        cases hscope.unique hs
        exact hreached
  · rintro ⟨d, hd, t, above, hscope, hreached⟩
    obtain ⟨hunder, pattern, hpattern, hbinds⟩ := (hmem d).1 hd
    exact ⟨t, above, .of_site hunder hpattern hbinds hscope, hreached⟩
  · rintro ⟨t, above, ⟨x, outer, hx, htext, site, ancestors, pattern, hpattern, hbinds, hscope⟩,
      hreached⟩
    refine ⟨⟨site, ancestors⟩, (hmem _).2 ⟨?_, pattern, hpattern, x, outer, hbinds, htext⟩,
      t, above, hscope, hreached⟩
    exact hx.of_suffix ((List.suffix_cons _ _).trans hbinds.under.suffix)

/-! ## Nodes that are found -/

theorem under_of_mem_declarations {found : List Declaration}
    (h : declarations source name t above = .ok found) :
    ∀ d ∈ found, Under (t :: above) (d.site :: d.ancestors) := by
  induction t using Tree.induct generalizing above found with
  | step t ih =>
    rw [declarations_eq] at h
    obtain ⟨own, hown, h⟩ := bind_eq_ok.1 h
    obtain ⟨below, hbelow, h⟩ := bind_eq_ok.1 h
    cases h
    intro d hd
    rcases List.mem_append.1 hd with hd | hd
    · obtain ⟨declared, -, hown⟩ := bind_eq_ok.1 hown
      cases hown
      rcases declared with _ | _
      · simp at hd
      · obtain rfl := List.mem_singleton.1 hd
        exact .refl
    · obtain ⟨lists, hlists, hbelow⟩ := bind_eq_ok.1 hbelow
      cases hbelow
      obtain ⟨list, hlist, hmem⟩ := List.mem_flatten.1 hd
      obtain ⟨c, hc, hfound⟩ := exists_of_mem_mapM hlists list hlist
      exact under_iff.2 (.inr ⟨c, List.mem_reverse.1 hc,
        ih c (List.mem_reverse.1 hc) hfound d hmem⟩)

theorem mem_of_declaratorScope {scope : Tree} (h : declaratorScope above = some scope) :
    scope ∈ above := by
  rcases above with _ | ⟨declaration, _ | ⟨parent, above⟩⟩
  · cases h
  · simp [declaratorScope] at h
  · refine List.mem_cons_of_mem _ ?_
    simp only [declaratorScope] at h
    split_ifs at h
    · exact List.mem_of_find?_eq_some h
    · cases h
      exact List.mem_cons_self
    · exact List.mem_of_find?_eq_some h

/-- The scope of a declaration is a node around it. -/
theorem mem_of_scope {d : Declaration} {scope : Tree} (h : d.scope source = .ok (some scope)) :
    scope ∈ d.site :: d.ancestors := by
  rw [Declaration.scope] at h
  split at h
  · obtain ⟨isVar, -, h⟩ := bind_eq_ok.1 h
    split at h
    · exact List.mem_cons_of_mem _ (List.mem_of_find?_eq_some (Except.ok.inj h))
    · cases h
      exact List.mem_cons_self
  · exact List.mem_cons_of_mem _ (mem_of_declaratorScope (Except.ok.inj h))

/-- A span that is found is the span of a name of the tree. -/
theorem exists_named_of_mem {spans : List Span} {span : Span}
    (h : declaredReferences source name root = .ok spans) (hspan : span ∈ spans) :
    ∃ u ∈ root.preorder, Named source name u ∧ u.span = span := by
  obtain ⟨found, hfound, d, hd, scope, hscope, u, hu, hname, hspan, htext⟩ :=
    exists_of_mem_declaredReferences h hspan
  have hunder := under_of_mem_declarations hfound d hd
  obtain ⟨before, outer, hsplit⟩ := List.append_of_mem (mem_of_scope hscope)
  have hmem := (hunder.of_suffix ⟨before, hsplit.symm⟩).mem_preorder
  exact ⟨u, Tree.preorder_trans hmem hu, ⟨hname, htext⟩, hspan⟩

/-- A plan renames a node when it selects its span. -/
def Renames (plan : Option (List Span × List Char)) (t : Tree) : Prop :=
  ∃ selection ∈ plan, t.span ∈ selection.1

/-- A program has a plan, and the plan selects what is reached from a scope of the variable. -/
theorem exists_planRename (hprogram : IsProgram root) (hnest : root.WellNested)
    (hread : Readable source root) :
    ∃ plan, planRename source .test root = .ok plan ∧ ∀ x, Renames plan x ↔ ∃ t above,
      DeclaresVariable source reservedName root (t :: above) ∧
        Reached source reservedName root (t :: above) x.span := by
  obtain ⟨spans, hspans, hmem⟩ :=
    collects_declaredReferences reservedName hprogram hnest hread
  obtain ⟨newName, hnew⟩ := exists_freeName replacementName fun u hu _ => hread u hu
  simp only [← hmem]
  rcases spans with _ | ⟨span, rest⟩
  · refine ⟨none, ?_, fun x => by simp [Renames]⟩
    rw [planRename, hspans]
    rfl
  · refine ⟨some (span :: rest, newName), ?_, fun x => by simp [Renames]⟩
    rw [planRename, hspans, hnew]
    rfl

end Courier.Script
