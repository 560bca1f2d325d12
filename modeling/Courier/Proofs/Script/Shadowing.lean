import Courier.Proofs.Outcome
import Courier.Proofs.Script.Binding
import Mathlib.Tactic.Common

/-!
# Which nodes declare the name

Every question about names is answered where the text of each node can be read, and what the answers
mean by the rules of scoping: `grants_declares` says that a node found to declare the name does so,
or is a function whose body is a function that does (`Hides`).
-/

namespace Courier.Script

open Outcome

variable {source : Source} {name : List Char} {root t : Tree} {above : Position}

/-- The text of every node in and below a node can be read. -/
def Readable (source : Source) (t : Tree) : Prop :=
  ∀ u ∈ t.preorder, ∃ text, source.textOf u = .ok text

/-- A program is the root of its tree and nothing else. -/
structure IsProgram (root : Tree) : Prop where
  kind : root.kind = .program
  only : ∀ c ∈ root.children, ∀ u ∈ c.preorder, u.kind ≠ .program

/-- The node at a position takes the name from what stands below it: it declares the name, or it is
a function whose body is a function that does. -/
def Hides (source : Source) (name : List Char) (root : Tree) : Position → Prop
  | [] => False
  | t :: above => Declares source name root (t :: above) ∨
      t.kind.isFunction = true ∧ ∃ body, t.child? .body = some body ∧
        body.kind.isFunction = true ∧ Declares source name root (body :: t :: above)

/-- The pattern at a position binds the name. -/
def BindsName (source : Source) (name : List Char) (p : Position) : Prop :=
  ∃ x above, PatternBinds p (x :: above) ∧ source.textOf x = .ok name

instance (source : Source) (t : Tree) : Decidable (Readable source t) :=
  decidable_of_iff (∀ u ∈ t.preorder, (source.textOf u).isOk = true) <| by
    refine forall₂_congr fun u _ => ?_
    rcases source.textOf u with fault | text
    · simp [Except.isOk, Except.toBool]
    · simp [Except.isOk, Except.toBool]

instance (root : Tree) : Decidable (IsProgram root) :=
  decidable_of_iff (root.kind = .program ∧ ∀ c ∈ root.children, ∀ u ∈ c.preorder, u.kind ≠ .program)
    ⟨fun ⟨kind, only⟩ => ⟨kind, only⟩, fun h => ⟨h.kind, h.only⟩⟩

theorem Readable.child (h : Readable source t) {c : Tree} (hc : c ∈ t.children) :
    Readable source c := fun u hu => h u (Tree.mem_preorder_of_child hc hu)

theorem Readable.child? (h : Readable source t) {field : Field} {c : Tree}
    (hc : t.child? field = some c) : Readable source c := h.child (Tree.mem_of_child? hc).1

theorem Readable.under (h : Readable source root) (hunder : Under [root] (t :: above)) :
    Readable source t :=
  fun u hu => h u (Tree.preorder_trans hunder.mem_preorder hu)

/-- Below the root of a program no node is a program. -/
theorem IsProgram.kind_ne (h : IsProgram root) {c : Tree}
    (hunder : Under [root] (c :: t :: above)) : c.kind ≠ .program := by
  rcases hunder.cases_child with heq | ⟨d, hd, hunder⟩
  · simp at heq
  · exact h.only d hd c hunder.mem_preorder

/-! ## Questions about texts -/

theorem answers_spells (h : Readable source t) :
    Answers (spells source name t) (source.textOf t = .ok name) := by
  obtain ⟨text, htext⟩ := h t t.mem_preorder_self
  refine ⟨text == name, ?_, ?_⟩
  · rw [spells, htext]
    rfl
  · rw [htext, beq_iff_eq, Except.ok.injEq]

theorem answers_binds (h : Readable source t) (above : Position) :
    Answers (binds source name (some t)) (BindsName source name (t :: above)) := by
  have hanswers : Answers (binds source name (some t))
      (∃ x ∈ bindings t, source.textOf x = .ok name) :=
    Answers.anyM fun x hx => by
      obtain ⟨outer, hbinds⟩ := (mem_bindings []).1 hx
      exact answers_spells fun u hu => h u (Tree.preorder_trans hbinds.under.mem_preorder hu)
  refine hanswers.congr ⟨?_, ?_⟩
  · rintro ⟨x, hx, htext⟩
    obtain ⟨outer, hbinds⟩ := (mem_bindings above).1 hx
    exact ⟨x, outer, hbinds, htext⟩
  · rintro ⟨x, outer, hbinds, htext⟩
    exact ⟨x, (mem_bindings above).2 ⟨outer, hbinds⟩, htext⟩

theorem grants_binds (above : Position) {pattern : Option Tree} {P : Prop}
    (h : ∀ p, pattern = some p → Readable source p)
    (himp : ∀ p, pattern = some p → BindsName source name (p :: above) → P) :
    Grants (binds source name pattern) P := by
  rcases pattern with _ | p
  · exact grants_no
  · exact (answers_binds (h p rfl) above).grants (himp p rfl)

theorem loopDeclaresVar?_eq_ok (h : Readable source t) {word : Tree}
    (hword : t.child? .kind = some word) :
    ∃ b, loopDeclaresVar? source t = .ok (some b) ∧
      (b = true ↔ source.textOf word = .ok "var".toList) := by
  obtain ⟨text, htext⟩ := h.child? hword word word.mem_preorder_self
  refine ⟨text == "var".toList, ?_, ?_⟩
  · rw [loopDeclaresVar?, hword]
    simp only [htext]
    rfl
  · rw [htext, beq_iff_eq, Except.ok.injEq]

theorem loopDeclaresVar?_of_none (h : t.child? .kind = none) :
    loopDeclaresVar? source t = .ok none := by
  rw [loopDeclaresVar?, h]
  rfl

/-! ## Variables -/

theorem variablePattern?_of_declarator (h : t.kind = .variableDeclarator) :
    t.variablePattern? = t.child? .name := if_pos h

theorem variablePattern?_of_loop (h : t.kind = .forInStatement) {word : Tree}
    (hword : t.child? .kind = some word) : t.variablePattern? = t.child? .left := by
  simp [Tree.variablePattern?, h, hword]

theorem mem_of_variablePattern? {pattern : Tree} (h : t.variablePattern? = some pattern) :
    pattern ∈ t.children := by
  rw [Tree.variablePattern?] at h
  split at h
  · exact (Tree.mem_of_child? h).1
  · split at h
    · exact (Tree.mem_of_child? h).1
    · simp at h

/-- What binds the name binds it at a position of the tree. -/
theorem BindsName.exists_under {p : Position} (h : BindsName source name p)
    (hunder : Under [root] p) :
    ∃ x outer, PatternBinds p (x :: outer) ∧ Under [root] (x :: outer) ∧
      source.textOf x = .ok name := by
  obtain ⟨x, outer, hbinds, htext⟩ := h
  exact ⟨x, outer, hbinds, hunder.trans hbinds.under, htext⟩

theorem under_child? (hunder : Under [root] (t :: above)) {field : Field} {c : Tree}
    (hc : t.child? field = some c) : Under [root] (c :: t :: above) :=
  hunder.trans (under_of_child? hc)

theorem DeclaresVariable.of_site {s : Position} {pattern : Tree}
    (hunder : Under [root] (t :: above)) (hpattern : t.variablePattern? = some pattern)
    (hbinds : BindsName source name (pattern :: t :: above))
    (hscope : VariableScope source (t :: above) s) : DeclaresVariable source name root s := by
  obtain ⟨x, outer, hbinds, hx, htext⟩ :=
    hbinds.exists_under (hunder.child (mem_of_variablePattern? hpattern))
  exact ⟨x, outer, hx, htext, t, above, pattern, hpattern, hbinds, hscope⟩

theorem DeclaresVariable.declares {s : Position} (h : DeclaresVariable source name root s) :
    Declares source name root s := by
  obtain ⟨x, outer, hx, htext, hintroduces⟩ := h
  exact ⟨x, outer, hx, htext, .declarator hintroduces⟩

/-- The declarators below a declaration bind in the scope that all of them have. -/
theorem grants_declaratorBinds {s : Position} (h : Readable source t)
    (hunder : Under [root] (t :: above))
    (hscope : ∀ d, d.kind = .variableDeclarator → VariableScope source (d :: t :: above) s) :
    Grants (declaratorBinds source name t) (Declares source name root s) := by
  refine Grants.anyM fun d hd => ?_
  have hmem := Tree.mem_of_namedChildren hd
  split
  · rename_i hkind
    refine grants_binds (d :: t :: above) (fun p hp => (h.child hmem).child? hp)
      fun p hp hbinds => ?_
    exact (DeclaresVariable.of_site (hunder.child hmem)
      ((variablePattern?_of_declarator hkind).trans hp) hbinds (hscope d hkind)).declares
  · exact grants_no

theorem grants_loopBinds {s : Position} {word : Tree} (h : Readable source t)
    (hunder : Under [root] (t :: above)) (hkind : t.kind = .forInStatement)
    (hword : t.child? .kind = some word) (hscope : VariableScope source (t :: above) s) :
    Grants (binds source name (t.child? .left)) (Declares source name root s) := by
  refine grants_binds (t :: above) (fun p hp => h.child? hp) fun p hp hbinds => ?_
  exact (DeclaresVariable.of_site hunder ((variablePattern?_of_loop hkind hword).trans hp) hbinds
    hscope).declares

theorem declaresVar_eq (t : Tree) : declaresVar source name t =
    t.children.anyM (fun c => do
      if !c.label.isNamed || c.kind.isFunction then return false
      if c.kind = .variableDeclaration then
        if ← declaratorBinds source name c then return true
      if c.kind = .forInStatement then
        if (← loopDeclaresVar? source c) = some true then
          if ← binds source name (c.child? .left) then return true
      declaresVar source name c) := by
  rw [declaresVar, Tree.fold_node, anyM_map]

/-- The head of a loop is asked before what follows, if the node is a loop that says `var`. -/
theorem grants_loopVar {rest : Except Text.Utf8.Fault Bool} (h : Readable source t)
    (hunder : Under [root] (t :: above))
    (hrest : Grants rest (Declares source name root (nearest Kind.isVarScope above))) :
    Grants (do
      if t.kind = .forInStatement then
        if (← loopDeclaresVar? source t) = some true then
          if ← binds source name (t.child? .left) then return true
      rest) (Declares source name root (nearest Kind.isVarScope above)) := by
  split
  · rename_i hkind
    rcases hword : t.child? .kind with _ | word
    · rw [loopDeclaresVar?_of_none hword]
      exact hrest
    · obtain ⟨b, hb, hvar⟩ := loopDeclaresVar?_eq_ok h hword
      rw [hb]
      rcases b with _ | _
      · exact hrest
      · exact (grants_loopBinds h hunder hkind hword (.loopVar hkind hword (hvar.1 rfl))).or hrest
  · exact hrest

/-- A `var` found below a node is one of the function or program around it. -/
theorem grants_declaresVar (hprogram : IsProgram root) (hread : Readable source t)
    (hunder : Under [root] (t :: above)) :
    Grants (declaresVar source name t)
      (Declares source name root (nearest Kind.isVarScope (t :: above))) := by
  induction t using Tree.induct generalizing above with
  | step t ih =>
    rw [declaresVar_eq]
    refine Grants.anyM fun c hc => ?_
    have hchild := hunder.child hc
    have hread' := hread.child hc
    split
    · exact grants_no
    · rename_i hskip
      -- a child that is no function leaves the scope what it is
      have hscope : nearest Kind.isVarScope (c :: t :: above) =
          nearest Kind.isVarScope (t :: above) := by
        rw [nearest_cons, if_neg]
        simp only [Bool.or_eq_true, not_or] at hskip
        simpa [Kind.isVarScope, hprogram.kind_ne hchild] using hskip.2
      have hbelow := ih c hc hread' hchild
      rw [hscope] at hbelow
      have hloop := grants_loopVar hread' hchild hbelow
      by_cases hkind : c.kind = .variableDeclaration
      · dsimp only
        rw [if_pos hkind]
        exact (grants_declaratorBinds hread' hchild fun d hd => .var hd hkind).or hloop
      · dsimp only
        rw [if_neg hkind]
        exact hloop

/-! ## Scopes -/

theorem Declares.of_pattern {s : Position} {pattern : Tree}
    (hunder : Under [root] (pattern :: t :: above))
    (hbinds : BindsName source name (pattern :: t :: above))
    (hintroduces : ∀ i, PatternBinds (pattern :: t :: above) i → Introduces source i s) :
    Declares source name root s := by
  obtain ⟨x, outer, hbinds, hx, htext⟩ := hbinds.exists_under hunder
  exact ⟨x, outer, hx, htext, hintroduces _ hbinds⟩

/-- A `var` found in the body of a function is one of the function, or of the body when that is a
function itself. -/
theorem hides_of_body (hprogram : IsProgram root) (hunder : Under [root] (t :: above))
    (hkind : t.kind.isFunction = true) {body : Tree} (hbody : t.child? .body = some body)
    (hdeclares : Declares source name root (nearest Kind.isVarScope (body :: t :: above))) :
    Hides source name root (t :: above) := by
  rw [nearest_cons] at hdeclares
  split at hdeclares
  · rename_i hscope
    refine .inr ⟨hkind, body, hbody, ?_, hdeclares⟩
    simpa [Kind.isVarScope, hprogram.kind_ne (under_child? hunder hbody)] using hscope
  · rw [nearest_cons, if_pos (by simp [Kind.isVarScope, hkind])] at hdeclares
    exact .inl hdeclares

theorem functionDeclares_eq (t : Tree) : functionDeclares source name t = (do
    if ← (if t.kind = .functionExpression || t.kind = .function || t.kind = .generatorFunction then
        (t.child? .name).elim (pure false) (spells source name) else pure false) then return true
    if ← binds source name (t.child? .parameters) then return true
    if ← binds source name (t.child? .parameter) then return true
    (t.child? .body).elim (pure false) (declaresVar source name)) := by
  rw [functionDeclares]
  split
  · rcases t.child? .name with _ | own <;> rcases t.child? .body with _ | body <;> rfl
  · rcases t.child? .body with _ | body <;> rfl

theorem grants_functionDeclares (hprogram : IsProgram root) (hread : Readable source t)
    (hunder : Under [root] (t :: above)) (hkind : t.kind.isFunction = true) :
    Grants (functionDeclares source name t) (Hides source name root (t :: above)) := by
  have hparameter : ∀ field, field = .parameters ∨ field = .parameter →
      Grants (binds source name (t.child? field)) (Hides source name root (t :: above)) := by
    intro field hfield
    refine grants_binds (t :: above) (fun p hp => hread.child? hp) fun p hp hbinds => .inl ?_
    refine .of_pattern (under_child? hunder hp) hbinds fun i hi => .parameter hkind ?_ hi
    rcases hfield with rfl | rfl
    · exact .inl hp
    · exact .inr hp
  rw [functionDeclares_eq]
  refine .or ?_ ((hparameter _ (.inl rfl)).or ((hparameter _ (.inr rfl)).or ?_))
  · split
    · rename_i hexpression
      rcases hname : t.child? .name with _ | own
      · exact grants_no
      · refine (answers_spells (hread.child? hname)).grants fun htext => .inl ?_
        refine ⟨own, t :: above, under_child? hunder hname, htext, .ownName ?_ hname⟩
        simp only [Bool.or_eq_true, decide_eq_true_eq] at hexpression
        rcases hexpression with (hkind | hkind) | hkind <;> rw [hkind] <;> rfl
    · exact grants_no
  · rcases hbody : t.child? .body with _ | body
    · exact grants_no
    · exact (grants_declaresVar hprogram (hread.child? hbody) (under_child? hunder hbody)).imp
        (hides_of_body hprogram hunder hkind hbody)

theorem grants_blockDeclares (hread : Readable source t) (hunder : Under [root] (t :: above))
    (hkind : t.kind.isBlock = true) :
    Grants (blockDeclares source name t) (Declares source name root (t :: above)) := by
  have hscope : nearest Kind.isBlock (t :: above) = t :: above := by
    rw [nearest_cons, if_pos hkind]
  refine Grants.anyM fun c hc => ?_
  have hmem := Tree.mem_of_namedChildren hc
  have hread' := hread.child hmem
  have hown : ∀ own, c.child? .name = some own → c.kind.isDeclared = true →
      Grants (spells source name own) (Declares source name root (t :: above)) := by
    intro own hname hdeclared
    refine (answers_spells (hread'.child? hname)).grants fun htext => ?_
    have hintroduces : Introduces source (own :: c :: t :: above) _ := .declared hdeclared hname
    rw [hscope] at hintroduces
    exact ⟨own, _, under_child? (hunder.child hmem) hname, htext, hintroduces⟩
  split
  · rename_i hlexical
    refine grants_declaratorBinds hread' (hunder.child hmem) fun d hd => ?_
    have hparent : ∀ parent ∈ (t :: above).head?, parent.kind ≠ .forStatement := by
      rintro parent ⟨⟩ hfor
      simp [hfor, Kind.isBlock] at hkind
    have hblock : VariableScope source (d :: c :: t :: above) _ :=
      .block hd (by simp [hlexical]) hparent
    rwa [hscope] at hblock
  · rename_i hclass
    rcases hname : c.child? .name with _ | own
    · exact grants_no
    · exact hown own hname (by rw [hclass]; rfl)
  · rename_i hfunction
    rcases hname : c.child? .name with _ | own
    · exact grants_no
    · exact hown own hname (by rw [hfunction]; rfl)
  · rename_i hgenerator
    rcases hname : c.child? .name with _ | own
    · exact grants_no
    · exact hown own hname (by rw [hgenerator]; rfl)
  · exact grants_no

variable (name) in
/-- A node that is found to declare the name hides it. -/
theorem grants_declares (hprogram : IsProgram root) (hread : Readable source root)
    (hunder : Under [root] (t :: above)) :
    Grants (declares source name t) (Hides source name root (t :: above)) := by
  have hread' := hread.under hunder
  rw [declares]
  split
  · rename_i hfunction
    exact grants_functionDeclares hprogram hread' hunder hfunction
  split
  · rename_i hblock
    exact (grants_blockDeclares hread' hunder hblock).imp .inl
  split
  · rename_i hfor
    rcases hstart : t.child? .initializer with _ | start
    · exact grants_no
    dsimp only
    split
    · rename_i hlexical
      refine (grants_declaratorBinds (hread'.child? hstart) (under_child? hunder hstart)
        fun d hd => ?_).imp .inl
      exact .head hd (by simp [hlexical]) hfor
    · exact grants_no
  · rename_i hloop
    rcases hword : t.child? .kind with _ | word
    · rw [loopDeclaresVar?_of_none hword]
      exact grants_no
    · obtain ⟨b, hb, hvar⟩ := loopDeclaresVar?_eq_ok hread' hword
      rw [hb]
      rcases b with _ | _
      · exact (grants_loopBinds hread' hunder hloop hword
          (.loop hloop hword (by simpa using hvar))).imp .inl
      · exact grants_no
  · rename_i hcatch
    refine grants_binds (t :: above) (fun p hp => hread'.child? hp) fun p hp hbinds => .inl ?_
    exact .of_pattern (under_child? hunder hp) hbinds fun i hi => .caught hcatch hp hi
  · exact grants_no

variable (name) in
theorem exists_declares (hprogram : IsProgram root) (hread : Readable source root)
    (h : t ∈ root.preorder) : ∃ b, declares source name t = .ok b := by
  obtain ⟨outer, hunder⟩ := exists_under h []
  obtain ⟨b, hb, -⟩ := grants_declares name hprogram hread hunder
  exact ⟨b, hb⟩

end Courier.Script
