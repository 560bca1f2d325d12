import Courier.Proofs.Script.Position
import Courier.Script.Scope
import Mathlib.Data.List.TakeWhile
import Mathlib.Tactic.Common

/-!
# Lexical scoping

What a name in a script refers to by the rules of the language, whatever is renamed.

* `PatternBinds p i`: the pattern at `p` binds the identifier at `i`.
* `IntroducesVariable source i s`: a declarator or a loop head binds the identifier at `i` in the
  scope at `s`.  A variable declared with `var` belongs to the function or program around it, any
  other to the head of the loop or the block it stands in.
* `Introduces source i s`: so does any construct that binds names, the two above or a declared class
  or function, the own name of a function or class expression, a parameter or the parameter of a
  `catch` clause.
* `Declares source name root s`: an identifier of the script binds the name in the scope at `s`.
* `Resolves source name root p s`: from the position `p`, the name is that of the scope at `s`, the
  nearest one around `p` that declares it.  A node does not enclose all that stands below it: the
  computed key of a method, its decorators and the own name of a declared function belong to what
  surrounds the function (`Encloses`).
-/

namespace Courier.Script

/-! ## Patterns -/

/-- Kinds of patterns and lists that bind what their parts bind. -/
def Kind.isGroup : Kind → Bool
  | .objectPattern | .arrayPattern | .restPattern | .formalParameters | .requiredParameter
  | .optionalParameter => true
  | _ => false

/-- The pattern at one position binds the identifier at another. -/
inductive PatternBinds : Position → Position → Prop
  | name {p : Tree} {above : Position}
      (kind : p.kind = .identifier ∨ p.kind = .shorthandPropertyPattern) :
      PatternBinds (p :: above) (p :: above)
  | value {p v : Tree} {above i : Position} (kind : p.kind = .pairPattern)
      (child : p.child? .value = some v) (binds : PatternBinds (v :: p :: above) i) :
      PatternBinds (p :: above) i
  | left {p v : Tree} {above i : Position}
      (kind : p.kind = .assignmentPattern ∨ p.kind = .objectAssignmentPattern)
      (child : p.child? .left = some v) (binds : PatternBinds (v :: p :: above) i) :
      PatternBinds (p :: above) i
  | part {p c : Tree} {above i : Position} (kind : p.kind.isGroup = true)
      (mem : c ∈ p.namedChildren) (binds : PatternBinds (c :: p :: above) i) :
      PatternBinds (p :: above) i

/-! ## Introductions -/

/-- The position of the nearest node, at or above a position, that is of some kinds. -/
def nearest (kinds : Kind → Bool) (p : Position) : Position := p.dropWhile (!kinds ·.kind)

/-- The pattern of a declarator or of a loop head that declares a variable. -/
def Tree.variablePattern? (t : Tree) : Option Tree :=
  if t.kind = .variableDeclarator then t.child? .name
  else if t.kind = .forInStatement && (t.child? .kind).isSome then t.child? .left
  else none

variable (source : Source) (name : List Char) (root : Tree)

/-- What the declarator or loop at one position declares is bound in the scope at another. -/
inductive VariableScope : Position → Position → Prop
  | var {d declaration : Tree} {above : Position} (site : d.kind = .variableDeclarator)
      (word : declaration.kind = .variableDeclaration) :
      VariableScope (d :: declaration :: above) (nearest Kind.isVarScope above)
  | head {d declaration parent : Tree} {above : Position} (site : d.kind = .variableDeclarator)
      (word : declaration.kind ≠ .variableDeclaration) (kind : parent.kind = .forStatement) :
      VariableScope (d :: declaration :: parent :: above) (parent :: above)
  | block {d declaration : Tree} {above : Position} (site : d.kind = .variableDeclarator)
      (word : declaration.kind ≠ .variableDeclaration)
      (kind : ∀ parent ∈ above.head?, parent.kind ≠ .forStatement) :
      VariableScope (d :: declaration :: above) (nearest Kind.isBlock above)
  | loopVar {loop word : Tree} {above : Position} (site : loop.kind = .forInStatement)
      (child : loop.child? .kind = some word) (text : source.textOf word = .ok "var".toList) :
      VariableScope (loop :: above) (nearest Kind.isVarScope above)
  | loop {loop word : Tree} {above : Position} (site : loop.kind = .forInStatement)
      (child : loop.child? .kind = some word) (text : source.textOf word ≠ .ok "var".toList) :
      VariableScope (loop :: above) (loop :: above)

/-- A variable declarator or a loop head binds an identifier in a scope. -/
def IntroducesVariable (i s : Position) : Prop :=
  ∃ site above pattern, site.variablePattern? = some pattern ∧
    PatternBinds (pattern :: site :: above) i ∧ VariableScope source (site :: above) s

/-- Kinds of declarations whose name is bound in the block around them. -/
def Kind.isDeclared : Kind → Bool
  | .classDeclaration | .functionDeclaration | .generatorFunctionDeclaration => true
  | _ => false

/-- Kinds of expressions whose own name is bound in themselves. -/
def Kind.isNamedExpression : Kind → Bool
  | .functionExpression | .function | .generatorFunction => true
  | k => k == .other "class"

/-- A construct of the language binds the identifier at one position in the scope at another. -/
inductive Introduces : Position → Position → Prop
  | declarator {i s : Position} (introduces : IntroducesVariable source i s) : Introduces i s
  | declared {d own : Tree} {above : Position} (kind : d.kind.isDeclared = true)
      (child : d.child? .name = some own) :
      Introduces (own :: d :: above) (nearest Kind.isBlock above)
  | ownName {e own : Tree} {above : Position} (kind : e.kind.isNamedExpression = true)
      (child : e.child? .name = some own) : Introduces (own :: e :: above) (e :: above)
  | parameter {f p : Tree} {above i : Position} (kind : f.kind.isFunction = true)
      (child : f.child? .parameters = some p ∨ f.child? .parameter = some p)
      (binds : PatternBinds (p :: f :: above) i) : Introduces i (f :: above)
  | caught {clause p : Tree} {above i : Position} (kind : clause.kind = .catchClause)
      (child : clause.child? .parameter = some p) (binds : PatternBinds (p :: clause :: above) i) :
      Introduces i (clause :: above)

/-- An identifier of the tree with the given root binds the name in the scope at a position. -/
def Declares (s : Position) : Prop :=
  ∃ x above, Under [root] (x :: above) ∧ source.textOf x = .ok name ∧
    Introduces source (x :: above) s

/-- A variable declarator or a loop head binds the name in the scope at a position. -/
def DeclaresVariable (s : Position) : Prop :=
  ∃ x above, Under [root] (x :: above) ∧ source.textOf x = .ok name ∧
    IntroducesVariable source (x :: above) s

/-! ## Resolution -/

/-- Whether a child of a node stands in the scope that the node opens, if it opens one.  Of a
function these are its parameters, its body and the own name of an expression. -/
def Encloses (t c : Tree) : Prop :=
  t.kind.isFunction = true →
    c.label.field = some .parameters ∨ c.label.field = some .parameter ∨
      c.label.field = some .body ∨
      (t.kind.isNamedExpression = true ∧ c.label.field = some .name)

/-- From one position the name is that of the scope at another: the nearest above that declares the
name and encloses the position. -/
inductive Resolves : Position → Position → Prop
  | here {c t : Tree} {above : Position} (encloses : Encloses t c)
      (declares : Declares source name root (t :: above)) : Resolves (c :: t :: above) (t :: above)
  | outward {c t : Tree} {above s : Position}
      (pass : ¬ (Encloses t c ∧ Declares source name root (t :: above)))
      (resolves : Resolves (t :: above) s) : Resolves (c :: t :: above) s

/-- A node is a name that is written as the given one. -/
def Named (t : Tree) : Prop := t.kind.isName = true ∧ source.textOf t = .ok name

/-- A name below the nodes `above` refers to what the scope at `s` declares under it: it resolves to
the scope, or it is bound there itself. -/
structure Refers (x : Tree) (above s : Position) : Prop where
  under : Under [root] (x :: above)
  named : Named source name x
  scope : Resolves source name root (x :: above) s ∨ Introduces source (x :: above) s

instance (t c : Tree) : Decidable (Encloses t c) := inferInstanceAs (Decidable (_ → _))

instance (t : Tree) : Decidable (Named source name t) := inferInstanceAs (Decidable (_ ∧ _))

/-! ## What the relations say of positions -/

variable {source name root}

theorem Tree.mem_of_namedChildren {t c : Tree} (h : c ∈ t.namedChildren) : c ∈ t.children :=
  (List.mem_filter.1 h).1

theorem under_of_child? {field : Field} {t c : Tree} {above : Position}
    (h : t.child? field = some c) : Under (t :: above) (c :: t :: above) :=
  .child .refl (Tree.mem_of_child? h).1

theorem PatternBinds.under {p i : Position} (h : PatternBinds p i) : Under p i := by
  induction h with
  | name _ => exact .refl
  | value _ child _ ih => exact (under_of_child? child).trans ih
  | left _ child _ ih => exact (under_of_child? child).trans ih
  | part _ mem _ ih => exact (Under.refl.child (Tree.mem_of_namedChildren mem)).trans ih

theorem nearest_cons (kinds : Kind → Bool) (t : Tree) (above : Position) :
    nearest kinds (t :: above) = if kinds t.kind then t :: above else nearest kinds above := by
  rw [nearest, List.dropWhile_cons]
  rcases kinds t.kind with _ | _ <;> rfl

theorem nearest_suffix (kinds : Kind → Bool) (p : Position) : nearest kinds p <:+ p :=
  List.dropWhile_suffix _

theorem find?_eq_head?_nearest (kinds : Kind → Bool) (p : Position) :
    p.find? (kinds ·.kind) = (nearest kinds p).head? :=
  p.find?_eq_head?_dropWhile_not _

theorem VariableScope.suffix {site s : Position} (h : VariableScope source site s) :
    s <:+ site := by
  cases h with
  | var => exact ((nearest_suffix _ _).trans (List.suffix_cons _ _)).trans (List.suffix_cons _ _)
  | head => exact (List.suffix_cons _ _).trans (List.suffix_cons _ _)
  | block => exact ((nearest_suffix _ _).trans (List.suffix_cons _ _)).trans (List.suffix_cons _ _)
  | loopVar => exact (nearest_suffix _ _).trans (List.suffix_cons _ _)
  | loop => exact List.suffix_rfl

/-- A name resolves to one scope at most. -/
theorem Resolves.unique {p s s' : Position} (h : Resolves source name root p s)
    (h' : Resolves source name root p s') : s = s' := by
  induction h with
  | here encloses declares =>
    cases h' with
    | here => rfl
    | outward pass _ => exact absurd ⟨encloses, declares⟩ pass
  | outward pass _ ih =>
    cases h' with
    | here encloses declares => exact absurd ⟨encloses, declares⟩ pass
    | outward _ resolves => exact ih resolves

/-- Kinds of nodes that open a scope. -/
def Kind.opensScope (k : Kind) : Bool :=
  k.isVarScope || k.isBlock || k.isNamedExpression || k == .forStatement || k == .forInStatement ||
    k == .catchClause

theorem kind_of_nearest {kinds : Kind → Bool} {p above : Position} {t : Tree}
    (h : nearest kinds p = t :: above) : kinds t.kind = true := by
  have hfind := find?_eq_head?_nearest kinds p
  rw [h] at hfind
  exact List.find?_some (p := fun u : Tree => kinds u.kind) hfind

theorem IntroducesVariable.exists_site {i s : Position} (h : IntroducesVariable source i s) :
    ∃ site ∈ i, site.variablePattern?.isSome = true := by
  obtain ⟨site, above, pattern, hpattern, hbinds, -⟩ := h
  refine ⟨site, ?_, by simp [hpattern]⟩
  exact ((List.suffix_cons _ _).trans hbinds.under.suffix).subset List.mem_cons_self

theorem VariableScope.opensScope {t : Tree} {site above : Position}
    (h : VariableScope source site (t :: above)) : t.kind.opensScope = true := by
  generalize hs : t :: above = s at h
  cases h with
  | var | loopVar => simp [Kind.opensScope, kind_of_nearest hs.symm]
  | block => simp [Kind.opensScope, kind_of_nearest hs.symm]
  | head _ _ kind =>
    cases hs
    simp [Kind.opensScope, kind]
  | loop site =>
    cases hs
    simp [Kind.opensScope, site]

theorem Introduces.opensScope {t : Tree} {i above : Position}
    (h : Introduces source i (t :: above)) : t.kind.opensScope = true := by
  generalize hs : t :: above = s at h
  cases h with
  | declarator introduces =>
    obtain ⟨site, outer, pattern, -, -, hscope⟩ := introduces
    rw [← hs] at hscope
    exact hscope.opensScope
  | declared => simp [Kind.opensScope, kind_of_nearest hs.symm]
  | ownName kind | parameter kind | caught kind =>
    cases hs
    simp [Kind.opensScope, Kind.isVarScope, kind]

/-- What a block itself binds is bound by a declarator, a loop head or a declaration. -/
theorem Introduces.of_block {t x d : Tree} {above outer : Position}
    (h : Introduces source (x :: d :: above) (t :: outer)) (hkind : t.kind.isBlock = true) :
    (∃ site ∈ x :: d :: above, site.variablePattern?.isSome = true) ∨ d.kind.isDeclared = true := by
  generalize hs : t :: outer = s at h
  cases h with
  | declarator introduces => exact .inl introduces.exists_site
  | declared kind => exact .inr kind
  | ownName kind | parameter kind | caught kind =>
    cases hs
    revert kind hkind
    generalize t.kind = k
    cases k <;> simp [Kind.isBlock, Kind.isNamedExpression, Kind.isFunction]

/-- What binds stands in the scope. -/
theorem Introduces.suffix {i s : Position} (h : Introduces source i s) : s <:+ i := by
  cases h with
  | declarator introduces =>
    obtain ⟨site, above, pattern, -, hbinds, hscope⟩ := introduces
    exact (hscope.suffix.trans (List.suffix_cons _ _)).trans hbinds.under.suffix
  | declared =>
    exact ((nearest_suffix _ _).trans (List.suffix_cons _ _)).trans (List.suffix_cons _ _)
  | ownName => exact List.suffix_cons _ _
  | parameter _ _ binds | caught _ _ binds =>
    exact (List.suffix_cons _ _).trans binds.under.suffix

/-- Only nodes that open a scope declare a name. -/
theorem Declares.opensScope {t : Tree} {above : Position}
    (h : Declares source name root (t :: above)) : t.kind.opensScope = true := by
  obtain ⟨x, outer, -, -, hintroduces⟩ := h
  exact hintroduces.opensScope

/-- A node that opens no scope is passed on the way to the scope. -/
theorem Resolves.pass {c t : Tree} {above s : Position} (hkind : t.kind.opensScope = false)
    (h : Resolves source name root (t :: above) s) :
    Resolves source name root (c :: t :: above) s :=
  .outward (fun hpass => by simp [hpass.2.opensScope] at hkind) h

theorem bindings_eq (t : Tree) : bindings t =
    match t.kind with
    | .identifier | .shorthandPropertyPattern => [t]
    | .pairPattern => ((t.child? .value).map bindings).getD []
    | .assignmentPattern | .objectAssignmentPattern => ((t.child? .left).map bindings).getD []
    | .objectPattern | .arrayPattern | .restPattern | .formalParameters | .requiredParameter
    | .optionalParameter => t.namedChildren.flatMap bindings
    | _ => [] := by
  rw [bindings, Tree.fold_node, pick?_map, pick?_map, List.filter_map, List.map_map]
  rfl

section Kinds

variable {t : Tree}

theorem bindings_of_name (h : t.kind = .identifier ∨ t.kind = .shorthandPropertyPattern) :
    bindings t = [t] := by
  rw [bindings_eq]
  rcases h with h | h <;> rw [h]

theorem bindings_of_pair (h : t.kind = .pairPattern) :
    bindings t = ((t.child? .value).map bindings).getD [] := by
  rw [bindings_eq, h]

theorem bindings_of_default
    (h : t.kind = .assignmentPattern ∨ t.kind = .objectAssignmentPattern) :
    bindings t = ((t.child? .left).map bindings).getD [] := by
  rw [bindings_eq]
  rcases h with h | h <;> rw [h]

theorem bindings_of_group (h : t.kind.isGroup = true) :
    bindings t = t.namedChildren.flatMap bindings := by
  rw [bindings_eq]
  split <;> simp_all [Kind.isGroup]

theorem bindings_of_ne
    (hname : ¬ (t.kind = .identifier ∨ t.kind = .shorthandPropertyPattern))
    (hpair : t.kind ≠ .pairPattern)
    (hdefault : ¬ (t.kind = .assignmentPattern ∨ t.kind = .objectAssignmentPattern))
    (hgroup : t.kind.isGroup ≠ true) : bindings t = [] := by
  rw [bindings_eq]
  split <;> simp_all [Kind.isGroup]

end Kinds

theorem mem_bindings_child {child : Option Tree} {x : Tree} :
    x ∈ (child.map bindings).getD [] ↔ ∃ v, child = some v ∧ x ∈ bindings v := by
  rcases child with _ | v <;> simp

/-- The identifiers that a pattern binds are those at the positions it binds. -/
theorem mem_bindings {t x : Tree} (above : Position) :
    x ∈ bindings t ↔ ∃ outer, PatternBinds (t :: above) (x :: outer) := by
  induction t using Tree.induct generalizing above with
  | step t ih =>
    constructor
    · intro h
      by_cases hname : t.kind = .identifier ∨ t.kind = .shorthandPropertyPattern
      · rw [bindings_of_name hname, List.mem_singleton] at h
        subst h
        exact ⟨above, .name hname⟩
      by_cases hpair : t.kind = .pairPattern
      · rw [bindings_of_pair hpair, mem_bindings_child] at h
        obtain ⟨v, hv, h⟩ := h
        obtain ⟨outer, hbinds⟩ := (ih v (Tree.mem_of_child? hv).1 _).1 h
        exact ⟨outer, .value hpair hv hbinds⟩
      by_cases hdefault : t.kind = .assignmentPattern ∨ t.kind = .objectAssignmentPattern
      · rw [bindings_of_default hdefault, mem_bindings_child] at h
        obtain ⟨v, hv, h⟩ := h
        obtain ⟨outer, hbinds⟩ := (ih v (Tree.mem_of_child? hv).1 _).1 h
        exact ⟨outer, .left hdefault hv hbinds⟩
      by_cases hgroup : t.kind.isGroup = true
      · rw [bindings_of_group hgroup, List.mem_flatMap] at h
        obtain ⟨c, hc, h⟩ := h
        obtain ⟨outer, hbinds⟩ := (ih c (Tree.mem_of_namedChildren hc) _).1 h
        exact ⟨outer, .part hgroup hc hbinds⟩
      · rw [bindings_of_ne hname hpair hdefault hgroup] at h
        simp at h
    · rintro ⟨outer, h⟩
      cases h with
      | name kind =>
        rw [bindings_of_name kind]
        exact List.mem_singleton_self _
      | value kind child binds =>
        rw [bindings_of_pair kind, child]
        exact (ih _ (Tree.mem_of_child? child).1 _).2 ⟨outer, binds⟩
      | left kind child binds =>
        rw [bindings_of_default kind, child]
        exact (ih _ (Tree.mem_of_child? child).1 _).2 ⟨outer, binds⟩
      | part kind mem binds =>
        rw [bindings_of_group kind]
        exact List.mem_flatMap.2
          ⟨_, mem, (ih _ (Tree.mem_of_namedChildren mem) _).2 ⟨outer, binds⟩⟩

end Courier.Script
