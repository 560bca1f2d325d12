import Courier.Proofs.Reporting
import Courier.Proofs.Script.References
import Courier.Proofs.Script.Rendering
import Courier.Proofs.Script.Unmapped
import Courier.Script.Strategy
import Mathlib.Data.List.Infix
import Mathlib.Tactic.Common

/-!
# Scripts that cannot be rendered

Rendering a tree fails for two reasons only, and the tree shows which: some node begins or ends
inside a character (`Tree.OnBoundaries`), or some access to a member does not say which member
(`Tree.NamesMembers`).  Every other part of a node may be missing, and the nodes need not even be
nested.  `Tree.Excludes` says of one defect that the tree gives no occasion for it.

* `exists_slice`: text between two boundaries can be read, in whichever order they come.
* `avoids_declares` and `avoids_references`: questions about scopes are answered.
* `Renderer.avoids_renderNode` has a case for each rule, and `Renderer.avoids_render` is induction on
  trees.
* `convertParsed_outcome` is the main statement, for every provider of trees.  A script that cannot
  be rendered is given back as it was, and where a script has to be converted in any case it is
  converted line by line.  `convertParsed_ofLanguages` says which tree it is when languages are
  tried in turn.
-/

namespace Courier.Script

open Outcome
open Text.Utf8 (encode)
open Logging (Yields)

/-! ## Positions between characters -/

/-- A position, counted in octets, at which a character of the script begins or the script ends. -/
def IsBoundary (script : List Char) (position : Nat) : Prop :=
  ∃ before, before <+: script ∧ (encode before).length = position

instance (script : List Char) (position : Nat) : Decidable (IsBoundary script position) :=
  decidable_of_iff (∃ before ∈ script.inits, (encode before).length = position) <| by
    simp only [IsBoundary, List.mem_inits]

variable {script : List Char} {start stop : Nat}

/-- Between two boundaries stands a text. -/
theorem exists_slice (hstart : IsBoundary script start) (hstop : IsBoundary script stop) :
    ∃ text, Source.slice (encode script) start stop = .ok text := by
  obtain ⟨before, hbefore, rfl⟩ := hstart
  obtain ⟨upTo, hupTo, rfl⟩ := hstop
  rcases List.prefix_or_prefix_of_prefix hbefore hupTo with ⟨text, rfl⟩ | ⟨text, rfl⟩
  · obtain ⟨rest, rfl⟩ := hupTo
    refine ⟨text, ?_⟩
    simp only [Source.slice, Text.Utf8.encode_append, List.length_append, Nat.add_sub_cancel_left,
      List.append_assoc, List.drop_left, List.take_left, Text.Utf8.decode_encode]
  · -- The second position comes first, so nothing stands between them.
    refine ⟨[], ?_⟩
    have hle : (encode upTo).length - (encode (upTo ++ text)).length = 0 := by
      rw [Text.Utf8.encode_append, List.length_append]
      omega
    rw [Source.slice, hle, List.take_zero]
    rfl

/-! ## Trees without occasion for a defect -/

/-- Every node begins and ends between characters of the script. -/
def Tree.OnBoundaries (script : List Char) (t : Tree) : Prop :=
  ∀ u ∈ t.preorder, IsBoundary script u.span.start ∧ IsBoundary script u.span.stop

/-- Every access to a member has a property. -/
def Tree.NamesMembers (t : Tree) : Prop :=
  ∀ u ∈ t.preorder, u.kind = .memberExpression → (u.child? .property).isSome = true

/-- The tree gives no occasion for the defect. -/
def Tree.Excludes (script : List Char) (t : Tree) : Defect → Prop
  | .encoding _ => t.OnBoundaries script
  | .absentChild => t.NamesMembers

instance (script : List Char) (t : Tree) : Decidable (t.OnBoundaries script) :=
  inferInstanceAs (Decidable (∀ u ∈ t.preorder,
    IsBoundary script u.span.start ∧ IsBoundary script u.span.stop))

instance (t : Tree) : Decidable t.NamesMembers :=
  inferInstanceAs (Decidable (∀ u ∈ t.preorder,
    u.kind = .memberExpression → (u.child? .property).isSome = true))

/-- The position gives no occasion for the defect. -/
def Defect.SparedAt (script : List Char) (position : Nat) : Defect → Prop
  | .encoding _ => IsBoundary script position
  | .absentChild => True

variable {t : Tree} {defect : Defect}

theorem Tree.Excludes.of_mem (h : t.Excludes script defect) {u : Tree} (hu : u ∈ t.preorder) :
    u.Excludes script defect := by
  cases defect with
  | encoding fault => exact fun v hv => h v (Tree.preorder_trans hu hv)
  | absentChild => exact fun v hv => h v (Tree.preorder_trans hu hv)

theorem Tree.Excludes.child (h : t.Excludes script defect) {c : Tree} (hc : c ∈ t.children) :
    c.Excludes script defect :=
  h.of_mem (Tree.mem_preorder_of_child hc c.mem_preorder_self)

theorem Tree.Excludes.child? (h : t.Excludes script defect) {field : Field} {c : Tree}
    (hc : t.child? field = some c) : c.Excludes script defect :=
  h.child (Tree.mem_of_child? hc).1

theorem Tree.Excludes.bounds (h : t.Excludes script defect) :
    defect.SparedAt script t.span.start ∧ defect.SparedAt script t.span.stop := by
  cases defect with
  | encoding fault => exact h t t.mem_preorder_self
  | absentChild => exact ⟨trivial, trivial⟩

theorem Tree.OnBoundaries.readable (h : t.OnBoundaries script) : Readable (encode script) t :=
  fun u hu => exists_slice (h u hu).1 (h u hu).2

theorem avoids_mapError {α : Type} {x : Except Text.Utf8.Fault α}
    (h : ∀ fault, defect = .encoding fault → Avoids x fault) :
    Avoids (x.mapError .encoding) defect := by
  rcases x with fault | a
  · rintro ⟨⟩
    exact h fault rfl rfl
  · exact avoids_ok _

/-- The property of an access is only absent where that is the defect. -/
theorem Tree.Excludes.avoids_absentChild {α : Type} (h : t.Excludes script defect)
    (hkind : t.kind = .memberExpression) (hproperty : t.child? .property = none) :
    Avoids (throw .absentChild : Except Defect α) defect := by
  cases defect with
  | encoding fault => rintro ⟨⟩
  | absentChild =>
    have hsome := h t t.mem_preorder_self hkind
    rw [hproperty] at hsome
    cases hsome

/-- Reading text between two positions. -/
theorem avoids_slice (hstart : defect.SparedAt script start) (hstop : defect.SparedAt script stop) :
    Avoids (Renderer.read (Source.slice (encode script) start stop)) defect := by
  refine avoids_mapError fun fault hfault => ?_
  subst hfault
  obtain ⟨text, htext⟩ := exists_slice hstart hstop
  rw [htext]
  exact avoids_ok _

/-! ## Scopes -/

section Scopes

variable {source : Source} {name : List Char} {fault : Text.Utf8.Fault}

theorem avoids_binds {pattern : Option Tree} (h : ∀ p, pattern = some p → Readable source p) :
    Avoids (binds source name pattern) fault := by
  rcases pattern with _ | p
  · exact avoids_ok _
  · exact (answers_binds (h p rfl) []).avoids

theorem avoids_declaratorBinds (h : Readable source t) :
    Avoids (declaratorBinds source name t) fault := by
  refine Avoids.anyM fun d hd => ?_
  split
  · exact avoids_binds fun p hp => (h.child (Tree.mem_of_namedChildren hd)).child? hp
  · exact avoids_ok _

theorem avoids_loopDeclaresVar? (h : Readable source t) :
    Avoids (loopDeclaresVar? source t) fault := by
  rcases hword : t.child? .kind with _ | word
  · rw [loopDeclaresVar?_of_none hword]
    exact avoids_ok _
  · obtain ⟨b, hb, -⟩ := loopDeclaresVar?_eq_ok h hword
    rw [hb]
    exact avoids_ok _

theorem avoids_declaresVar (h : Readable source t) : Avoids (declaresVar source name t) fault := by
  induction t using Tree.induct with
  | step t ih =>
    rw [declaresVar_eq]
    refine Avoids.anyM fun c hc => ?_
    have hchild := h.child hc
    have hbelow := ih c hc hchild
    have hloop : Avoids (do
        if c.kind = .forInStatement then
          if (← loopDeclaresVar? source c) = some true then
            if ← binds source name (c.child? .left) then return true
        declaresVar source name c) fault := by
      split
      · refine (avoids_loopDeclaresVar? hchild).bind fun word _ => ?_
        split
        · exact (avoids_binds fun p hp => hchild.child? hp).or hbelow
        · exact hbelow
      · exact hbelow
    split
    · exact avoids_ok _
    by_cases hkind : c.kind = .variableDeclaration
    · simp only [hkind, if_true]
      exact (avoids_declaratorBinds hchild).or (by simpa only [hkind] using hloop)
    · simp only [hkind, if_false]
      exact hloop

theorem avoids_functionDeclares (h : Readable source t) :
    Avoids (functionDeclares source name t) fault := by
  rw [functionDeclares_eq]
  refine .or ?_ (.or ?_ (.or ?_ ?_))
  · split
    · rcases hname : t.child? .name with _ | own
      · exact avoids_ok _
      · exact (answers_spells (h.child? hname)).avoids
    · exact avoids_ok _
  · exact avoids_binds fun p hp => h.child? hp
  · exact avoids_binds fun p hp => h.child? hp
  · rcases hbody : t.child? .body with _ | body
    · exact avoids_ok _
    · exact avoids_declaresVar (h.child? hbody)

/-- Whether something of its own name declares a name. -/
theorem avoids_ownName {own? : Option Tree} (h : ∀ own, own? = some own → Readable source own) :
    Avoids (match own? with
      | none => return false
      | some own => spells source name own) fault := by
  rcases own? with _ | own
  · exact avoids_ok _
  · exact (answers_spells (h own rfl)).avoids

theorem avoids_blockDeclares (h : Readable source t) :
    Avoids (blockDeclares source name t) fault := by
  refine Avoids.anyM fun c hc => ?_
  have hchild := h.child (Tree.mem_of_namedChildren hc)
  split
  · exact avoids_declaratorBinds hchild
  · exact avoids_ownName fun own hown => hchild.child? hown
  · exact avoids_ownName fun own hown => hchild.child? hown
  · exact avoids_ownName fun own hown => hchild.child? hown
  · exact avoids_ok _

/-- Whether a node declares the name can be answered where the texts of its nodes can be read. -/
theorem avoids_declares (h : Readable source t) : Avoids (declares source name t) fault := by
  rw [declares]
  split
  · exact avoids_functionDeclares h
  split
  · exact avoids_blockDeclares h
  split
  · rcases hstart : t.child? .initializer with _ | start
    · exact avoids_ok _
    · dsimp only
      split
      · exact avoids_declaratorBinds (h.child? hstart)
      · exact avoids_ok _
  · refine (avoids_loopDeclaresVar? h).bind fun word _ => ?_
    split
    · exact avoids_binds fun p hp => h.child? hp
    · exact avoids_ok _
  · exact avoids_binds fun p hp => h.child? hp
  · exact avoids_ok _

theorem avoids_referencesBelow (h : Readable source t) :
    Avoids (referencesBelow source name t) fault := by
  induction t using Tree.induct with
  | step t ih =>
    rw [referencesBelow_eq]
    refine (answers_isNamed name h).avoids.bind fun isReference _ => ?_
    rcases isReference with _ | _
    · refine (avoids_declares h).bind fun isDeclared _ => ?_
      rcases isDeclared with _ | _
      · refine Avoids.bind (.mapM fun c hc => ?_) fun _ _ => avoids_ok _
        exact ih c (List.mem_reverse.1 hc) (h.child (List.mem_reverse.1 hc))
      · exact avoids_ok _
    · exact avoids_ok _

theorem avoids_references (h : Readable source t) : Avoids (references source name t) fault := by
  refine Avoids.bind (.mapM fun c hc => ?_) fun _ _ => avoids_ok _
  exact avoids_referencesBelow (h.child (List.mem_reverse.1 hc))

theorem avoids_scope {d : Declaration} (h : Readable source d.site) :
    Avoids (d.scope source) fault := by
  rw [Declaration.scope]
  split
  · refine (avoids_loopDeclaresVar? h).bind fun word _ => ?_
    split
    · exact avoids_ok _
    · exact avoids_ok _
  · exact avoids_ok _

theorem avoids_declaredReferences (h : Readable source t) :
    Avoids (declaredReferences source name t) fault := by
  refine (collects_declarations name h []).avoids.bind fun found hfound => ?_
  refine Avoids.bind (.mapM fun d hd => ?_) fun _ _ => avoids_ok _
  have hunder := under_of_mem_declarations hfound d hd
  refine (avoids_scope (h.under hunder)).bind fun scope? hscope => ?_
  rcases scope? with _ | scope
  · exact avoids_ok _
  · -- The scope is the declaration itself or stands above it.
    obtain ⟨before, outer, hsplit⟩ := List.append_of_mem (mem_of_scope hscope)
    exact avoids_references (h.under (hunder.of_suffix ⟨before, hsplit.symm⟩))

end Scopes

/-! ## Rules -/

namespace Renderer

variable {r : Renderer} {f : Tree → Except Defect Rendering}

/-- The rendering of a child in a copy, when the child itself is rendered without the defect. -/
theorem avoids_piece {o : Option (Span × List Char)} {c : Tree} (h : Avoids (f c) defect) :
    Avoids (piece o c (f c)) defect := by
  rcases o with _ | ⟨span, text⟩
  · exact h
  · rw [piece]
    split
    · exact avoids_ok _
    · exact h

theorem mem_of_chainRoot {u : Tree} (h : chainRoot t = some u) : u ∈ t.preorder := by
  induction t using Tree.induct with
  | step t ih =>
    rw [Source.chainRoot_eq] at h
    split at h
    · obtain ⟨object, hobject, h⟩ := Option.bind_eq_some_iff.1 h
      have hmem := (Tree.mem_of_child? hobject).1
      exact Tree.mem_preorder_of_child hmem (ih object hmem h)
    · cases h
      exact Tree.mem_preorder_self _

theorem avoids_noting {notice : Notice} {x : Except Defect Rendering} (h : Avoids x defect) :
    Avoids (noting notice x) defect := h.bind fun _ _ => avoids_ok _

section

variable (hsource : r.source = encode script)

include hsource

theorem avoids_textOf (h : t.Excludes script defect) : Avoids (r.textOf t) defect := by
  rw [textOf, hsource]
  exact avoids_slice h.bounds.1 h.bounds.2

theorem avoids_copyFrom {o : Option (Span × List Char)} {children : List Tree} {cursor : Nat}
    (hcursor : defect.SparedAt script cursor) (hstop : defect.SparedAt script stop)
    (hchild : ∀ c ∈ children, c.Excludes script defect ∧ Avoids (f c) defect) :
    Avoids (r.copyFrom o stop cursor (children.map fun c => (c, f c))) defect := by
  induction children generalizing cursor with
  | nil =>
    rw [List.map_nil, copyFrom, hsource]
    exact (avoids_slice hcursor hstop).bind fun _ _ => avoids_ok _
  | cons c rest ih =>
    obtain ⟨hexcludes, hrendered⟩ := hchild c List.mem_cons_self
    have hrest := ih hexcludes.bounds.2 fun d hd => hchild d (List.mem_cons_of_mem _ hd)
    rw [List.map_cons, copyFrom_cons, hsource]
    refine (avoids_slice hcursor hexcludes.bounds.1).bind fun gap _ => ?_
    refine (avoids_piece hrendered).bind fun inner _ => ?_
    exact hrest.bind fun _ _ => avoids_ok _

variable (h : t.Excludes script defect) (hchild : ∀ c ∈ t.children, Avoids (f c) defect)

include h hchild

theorem avoids_copy (o : Option (Span × List Char)) :
    Avoids (r.copy o t (t.children.map fun c => (c, f c))) defect := by
  have hcopy := avoids_copyFrom hsource (o := o) h.bounds.1 h.bounds.2 fun c hc =>
    ⟨h.child hc, hchild c hc⟩
  rcases hchildren : t.children with _ | ⟨c, rest⟩
  · exact (avoids_textOf hsource h).bind fun _ _ => avoids_ok _
  · rw [hchildren] at hcopy
    exact hcopy

omit h hchild

theorem avoids_isIdentifier {name : String} {o : Option Tree}
    (h : ∀ u, o = some u → u.Excludes script defect) : Avoids (r.isIdentifier name o) defect := by
  rcases o with _ | u
  · exact avoids_ok _
  · rw [isIdentifier]
    split
    · exact (avoids_textOf hsource (h u rfl)).bind fun _ _ => avoids_ok _
    · exact avoids_ok _

/-- An access whose object fits has to have a property. -/
theorem avoids_isAccess {objectName propertyName : String} {o : Option Tree}
    (h : ∀ u, o = some u → u.Excludes script defect) :
    Avoids (r.isAccess objectName propertyName o) defect := by
  rcases o with _ | u
  · exact avoids_ok _
  have hu := h u rfl
  rw [isAccess]
  split
  · exact avoids_ok _
  rename_i hkind
  refine (avoids_isIdentifier hsource fun v hv => hu.child? hv).bind fun isObject _ => ?_
  rcases isObject with _ | _
  · exact avoids_ok _
  rcases hproperty : u.child? .property with _ | property
  · exact hu.avoids_absentChild (not_not.1 hkind) hproperty
  · exact (avoids_textOf hsource (hu.child? hproperty)).bind fun _ _ => avoids_ok _

include h hchild

theorem avoids_renderCall :
    Avoids (r.renderCall t (t.children.map fun c => (c, f c))) defect := by
  have hcopy := avoids_copy hsource h hchild
  rw [renderCall]
  rcases hcallee : t.child? .function with _ | callee
  · exact hcopy none
  have hbelow := h.child? hcallee
  dsimp only
  split
  · refine (avoids_textOf hsource hbelow).bind fun name _ => ?_
    split
    · exact hcopy _
    · exact hcopy none
  split
  · exact hcopy none
  refine (avoids_isIdentifier hsource fun u hu => hbelow.child? hu).bind fun isBru _ => ?_
  rcases isBru with _ | _
  · -- The callee is no method of `bru`, but may be a longer chain.
    refine (avoids_isIdentifier hsource fun u hu => hbelow.of_mem (mem_of_chainRoot hu)).bind
      fun isRooted _ => ?_
    rcases isRooted with _ | _
    · exact hcopy none
    · exact (avoids_textOf hsource hbelow).bind fun _ _ => avoids_noting (hcopy none)
  · rcases hproperty : callee.child? .property with _ | property
    · exact hcopy none
    dsimp only
    rw [if_pos rfl]
    split
    · exact hcopy none
    refine (avoids_textOf hsource (hbelow.child? hproperty)).bind fun method _ => ?_
    split
    · exact hcopy _
    · exact avoids_noting (hcopy none)

theorem avoids_renderMember (isCallee : Bool) :
    Avoids (r.renderMember isCallee t (t.children.map fun c => (c, f c))) defect := by
  have hcopy := avoids_copy hsource h hchild none
  rw [renderMember]
  split
  · exact hcopy
  refine (avoids_isIdentifier hsource fun u hu => h.child? hu).bind fun isRes _ => ?_
  rcases isRes with _ | _
  · exact hcopy
  rcases hproperty : t.child? .property with _ | property
  · exact hcopy
  dsimp only
  rw [if_neg (by simp)]
  split
  · exact hcopy
  refine (avoids_textOf hsource (h.child? hproperty)).bind fun name _ => ?_
  split
  · exact avoids_noting hcopy
  · exact avoids_ok _

theorem avoids_renderSubscript :
    Avoids (r.renderSubscript t (t.children.map fun c => (c, f c))) defect := by
  have hcopy := avoids_copy hsource h hchild none
  rw [renderSubscript, pick?_map]
  split
  · exact hcopy
  rcases hobject : t.child? .object with _ | object
  · exact hcopy
  rcases hindex : t.child? .index with _ | key
  · exact hcopy
  have hbelow := h.child? hobject
  have hkey := hchild key (Tree.mem_of_child? hindex).1
  dsimp only [Option.map_some]
  split
  · exact hcopy
  rename_i hkind
  refine (avoids_isAccess hsource fun u hu => ?_).bind fun ofResponse _ => ?_
  · cases hu
    exact hbelow
  rcases hproperty : object.child? .property with _ | property
  · exact hbelow.avoids_absentChild (not_not.1 hkind) hproperty
  refine (avoids_textOf hsource (hbelow.child? hproperty)).bind fun name _ => ?_
  have hlookup (ofSandbox : Bool) : Avoids (if (ofResponse || ofSandbox) = true then do
        let inner ← f key
        return ⟨"pm.response.headers.get(".toList ++ inner.text ++ [')'], inner.notices⟩
      else r.copy none t (t.children.map fun c => (c, f c))) defect := by
    split
    · exact hkey.bind fun _ _ => avoids_ok _
    · exact hcopy
  split
  · refine (avoids_isAccess hsource fun u hu => hbelow.child? hu).bind fun ofSandbox _ => ?_
    exact hlookup ofSandbox
  · exact hlookup false

theorem avoids_renderName :
    Avoids (r.renderName t (t.children.map fun c => (c, f c))) defect := by
  rw [renderName]
  split
  · split
    · exact avoids_ok _
    · exact (avoids_textOf hsource h).bind fun _ _ => avoids_ok _
  · exact avoids_copy hsource h hchild none

/-- No rule ends in the defect when the children of the node are rendered without it. -/
theorem avoids_renderNode (callee : Option Span) :
    Avoids (r.renderNode callee t (t.children.map fun c => (c, f c))) defect := by
  rw [renderNode]
  split
  · exact avoids_renderCall hsource h hchild
  · exact avoids_renderMember hsource h hchild _
  · exact avoids_renderSubscript hsource h hchild
  · exact avoids_renderName hsource h hchild
  · exact avoids_renderName hsource h hchild
  · exact avoids_renderName hsource h hchild
  · exact avoids_copy hsource h hchild none

omit h hchild

/-- Rendering a tree does not end in a defect for which it gives no occasion. -/
theorem avoids_render (h : t.Excludes script defect) (callee : Option Span) :
    Avoids (r.render t callee) defect := by
  induction t using Tree.induct generalizing callee with
  | step t ih =>
    rw [render_eq]
    exact avoids_renderNode hsource h (fun c hc => ih c hc (h.child hc) _) callee

end

end Renderer

/-! ## Scripts -/

variable {role : Role} {root : Tree}

theorem avoids_planRename (h : root.Excludes script defect) :
    Avoids (planRename (encode script) role root) defect := by
  have hread (fault : Text.Utf8.Fault) (hfault : defect = .encoding fault) :
      Readable (encode script) root := by
    subst hfault
    exact Tree.OnBoundaries.readable h
  rw [planRename]
  split
  · exact avoids_ok _
  refine (avoids_mapError fun fault hfault =>
    avoids_declaredReferences (hread fault hfault)).bind fun spans _ => ?_
  split
  · exact avoids_ok _
  refine (avoids_mapError fun fault hfault => ?_).bind fun newName _ => avoids_ok _
  obtain ⟨newName, hnew⟩ :=
    exists_freeName replacementName fun u hu _ => hread fault hfault u hu
  rw [hnew]
  exact avoids_ok newName

theorem sparedAt_zero : defect.SparedAt script 0 := by
  cases defect with
  | encoding fault => exact ⟨[], List.nil_prefix, rfl⟩
  | absentChild => trivial

theorem sparedAt_length : defect.SparedAt script (encode script).length := by
  cases defect with
  | encoding fault => exact ⟨script, List.prefix_refl script, rfl⟩
  | absentChild => trivial

theorem avoids_renderScript (h : root.Excludes script defect) :
    Avoids (renderScript (encode script) role root) defect := by
  rw [renderScript]
  refine (avoids_planRename h).bind fun plan _ => ?_
  refine (avoids_slice sparedAt_zero h.bounds.1).bind fun head _ => ?_
  refine (Renderer.avoids_render rfl h none).bind fun body _ => ?_
  exact (avoids_slice h.bounds.2 sparedAt_length).bind fun _ _ => avoids_ok _

/-- A script is rendered when its tree stands on the boundaries of its characters and every access
names its member. -/
theorem exists_renderScript (hbounds : root.OnBoundaries script) (hmembers : root.NamesMembers) :
    ∃ w, renderScript (encode script) role root = .ok w := by
  refine exists_eq_ok fun defect => ?_
  cases defect with
  | encoding fault =>
    have h : root.Excludes script (.encoding fault) := hbounds
    exact avoids_renderScript h
  | absentChild =>
    have h : root.Excludes script .absentChild := hmembers
    exact avoids_renderScript h

theorem succeeded_conversion (w : Rendered) : w.conversion.succeeded = true := by
  rw [Rendered.conversion]
  split
  · rfl
  · rfl

/-- A conversion through a tree succeeds, or it is given up: because there is no tree, or in a defect
for which the tree gives occasion. -/
theorem convertTree_cases (script : List Char) (role : Role) (parsed : Except String Tree) :
    (∃ root w, parsed = .ok root ∧ renderScript (encode script) role root = .ok w ∧
      convertTree script role parsed = w.conversion) ∨
    ∃ reason, convertTree script role parsed = abandoned script reason ∧
      (parsed = .error reason ∨ ∃ root defect, parsed = .ok root ∧
        ¬ root.Excludes script defect ∧ reason = defect.message) := by
  rcases parsed with reason | root
  · exact .inr ⟨reason, rfl, .inl rfl⟩
  rcases hrender : renderScript (encode script) role root with defect | w
  · refine .inr ⟨defect.message, ?_, .inr ⟨root, defect, rfl, fun h => ?_, rfl⟩⟩
    · simp only [convertTree, hrender]
    · exact avoids_renderScript h hrender
  · exact .inl ⟨root, w, rfl, hrender, by simp only [convertTree, hrender]⟩

/-- Converting line by line always succeeds, and never says that it stands in for a tree. -/
theorem Textual.convert_succeeds (script : List Char) (role : Role) :
    (Textual.convert script role).failure = none ∧
      degradedWarning ∉ (Textual.convert script role).warnings := by
  rw [Textual.convert]
  split
  · exact ⟨rfl, by simp [degradedWarning, partialWarning]⟩
  · exact ⟨rfl, by simp⟩

/-- A script is converted through the first tree that a language finds no error in; without one,
the reason says what is wrong in each language. -/
theorem convertParsed_ofLanguages (languages : List Language) (script : List Char) (role : Role) :
    (∃ passed language later, languages = passed ++ language :: later ∧
      (∀ l ∈ passed, (l.parse (encode script)).label.hasError = true) ∧
      (language.parse (encode script)).label.hasError = false ∧
      convertParsed (.ofLanguages languages) script role =
        convertTree script role (.ok (language.parse (encode script)))) ∨
    ((∀ l ∈ languages, (l.parse (encode script)).label.hasError = true) ∧
      convertParsed (.ofLanguages languages) script role =
        abandoned script (unparsedReason languages (encode script))) := by
  rcases hfind : languages.find? (·.accepts (encode script)) with _ | language
  · refine .inr ⟨fun l hl => ?_, ?_⟩
    · simpa [Language.accepts] using List.find?_eq_none.mp hfind l hl
    · simp only [convertParsed, Provider.ofLanguages, hfind, convertTree]
  · obtain ⟨haccepts, passed, later, hsplit, hpassed⟩ := List.find?_eq_some_iff_append.mp hfind
    refine .inl ⟨passed, language, later, hsplit, fun l hl => ?_, ?_, ?_⟩
    · simpa [Language.accepts] using hpassed l hl
    · simpa [Language.accepts] using haccepts
    · simp only [convertParsed, Provider.ofLanguages, hfind]

/-- What converting with trees first comes to: the conversion through the tree when that succeeds,
and otherwise that of the lines with one more warning. -/
theorem convertWith_tree_yields (provider : Provider) (script : List Char) (role : Role) :
    Yields (convertWith (.tree provider) script role)
      (if (convertParsed provider script role).succeeded then convertParsed provider script role
        else ⟨(Textual.convert script role).lines,
          (Textual.convert script role).warnings ++ [degradedWarning], none⟩) := by
  intro entries
  rw [convertWith]
  by_cases hsucceeded : (convertParsed provider script role).succeeded
  · simp only [hsucceeded, if_true]
    rfl
  · simp only [hsucceeded, Bool.false_eq_true, if_false]
    rw [← (Textual.convert_succeeds script role).1]
    rfl

/-- Let a provider yield a tree for a script, or a reason why there is none.  A script whose tree
stands on the boundaries of its characters, with a property at every access, is converted through
the tree, whatever else is missing.  In every other case the conversion succeeds all the same, or
the script is given back as it was with one warning and the reason: there is no tree, or the tree
gives occasion for the defect.  Where trees are tried first, the outcome is that of the tree when it
succeeds, and otherwise that of the lines with one more warning. -/
theorem convertParsed_outcome (provider : Provider) (script : List Char) (role : Role) :
    (∀ root, provider (encode script) = .ok root → root.OnBoundaries script → root.NamesMembers →
      ∃ w, renderScript (encode script) role root = .ok w ∧
        convertParsed provider script role = w.conversion ∧
        (convertParsed provider script role).succeeded = true) ∧
    ((convertParsed provider script role).succeeded = true ∨
      ∃ reason, convertParsed provider script role =
          ⟨Text.lineStrings script, [fallbackWarning], some reason⟩ ∧
        (provider (encode script) = .error reason ∨
          ∃ root defect, provider (encode script) = .ok root ∧
            ¬ root.Excludes script defect ∧ reason = defect.message)) ∧
    ∃ result, Yields (convertWith (.tree provider) script role) result ∧
      result.succeeded = true ∧
      result = (if (convertParsed provider script role).succeeded
        then convertParsed provider script role
        else ⟨(Textual.convert script role).lines,
          (Textual.convert script role).warnings ++ [degradedWarning], none⟩) ∧
      degradedWarning ∉ (Textual.convert script role).warnings := by
  refine ⟨fun root hparsed hbounds hmembers => ?_, ?_, ?_⟩
  · have hrendered : ∃ w, renderScript (encode script) role root = .ok w :=
      exists_renderScript hbounds hmembers
    obtain ⟨w, hw⟩ := hrendered
    have hconvert : convertParsed provider script role = w.conversion := by
      simp only [convertParsed, hparsed, convertTree, hw]
    exact ⟨w, hw, hconvert, hconvert ▸ succeeded_conversion w⟩
  · rcases convertTree_cases script role (provider (encode script)) with
      ⟨root, w, -, -, hconvert⟩ | hgivenUp
    · exact .inl (by rw [convertParsed, hconvert]; exact succeeded_conversion w)
    · exact .inr hgivenUp
  · refine ⟨_, convertWith_tree_yields provider script role, ?_, rfl,
      (Textual.convert_succeeds script role).2⟩
    split
    · assumption
    · rfl

/-- A script with a character of two octets, and a tree over it that lacks most parts: a call of
nothing, an access in no object, a declaration and a loop without variables. -/
def bareScript : List Char := "\u00e9 res[0]".toList

/-- The tree over `bareScript`. -/
def bareTree : Tree :=
  .node { kind := .program, span := ⟨0, 9⟩ } [
    .node { kind := .callExpression, span := ⟨0, 2⟩ } [],
    .node { kind := .subscriptExpression, span := ⟨3, 9⟩ } [
      .node { kind := .memberExpression, span := ⟨3, 6⟩, field := some .object } [
        .node { kind := .propertyIdentifier, span := ⟨3, 6⟩, field := some .property } []],
      .node { kind := .variableDeclarator, span := ⟨6, 7⟩ } [],
      .node { kind := .forInStatement, span := ⟨7, 8⟩, field := some .index } []]]

theorem convertParsed_outcome_bare :
    bareTree.OnBoundaries bareScript ∧ bareTree.NamesMembers ∧
    ∃ w, renderScript (encode bareScript) .test bareTree = .ok w ∧
      convertParsed (fun _ => .ok bareTree) bareScript .test = w.conversion ∧
      (convertParsed (fun _ => .ok bareTree) bareScript .test).succeeded = true := by
  have hbounds : bareTree.OnBoundaries bareScript := by decide +kernel
  have hmembers : bareTree.NamesMembers := by decide +kernel
  exact ⟨hbounds, hmembers, (convertParsed_outcome (fun _ => .ok bareTree) bareScript .test).1
    bareTree rfl hbounds hmembers⟩

/-- The tree of a look-up in an access that does not say which member it is to. -/
def namelessTree : Tree :=
  .node { kind := .subscriptExpression, span := ⟨0, 6⟩ } [
    .node { kind := .memberExpression, span := ⟨0, 3⟩, field := some .object } [
      .node { kind := .identifier, span := ⟨0, 3⟩, field := some .object } []],
    .node { kind := .other "number", span := ⟨4, 5⟩, field := some .index } []]

example : convertTree "res[0]".toList .test (.ok namelessTree) =
    ⟨["res[0]"], [fallbackWarning], some Defect.absentChild.message⟩ := by
  decide +kernel

end Courier.Script
