import Courier.Proofs.Script.Edit
import Courier.Script.Scope
import Mathlib.Tactic.Common

/-!
# Well nested trees

The nodes of a tree are well nested when the children of every node stand one after the other in
the span of the node (`Tree.Nested`).  Names have no children, and an access to a member or an
element holds nothing but its two parts, punctuation and comments.  Nothing else is asked of a tree:
its nodes may be of any kind and fill any field.

`Tree.induct` is induction on trees, from the children of a node to the node.
`WellNested.bounds` says that every node of a tree stands in the span of the tree, and
`Ordered.eq_of_span_eq` that a node is known among its siblings by what it spans.
-/

namespace Courier.Script

namespace Tree

/-- A property that a node has when its children have it is a property of all trees. -/
theorem induct {P : Tree → Prop} (step : ∀ t, (∀ c ∈ t.children, P c) → P t) : ∀ t, P t
  | .node label children => step (.node label children) fun c hc =>
    have _hmem : c ∈ children := hc
    induct step c
termination_by t => sizeOf t
decreasing_by
  have hlt := List.sizeOf_lt_of_mem _hmem
  simp_wf
  omega

theorem mem_preorder_self (t : Tree) : t ∈ t.preorder := by
  rw [preorder_eq]
  exact List.mem_cons_self

theorem mem_preorder_of_child {t c u : Tree} (hc : c ∈ t.children) (hu : u ∈ c.preorder) :
    u ∈ t.preorder := by
  rw [preorder_eq]
  exact List.mem_cons_of_mem _ (List.mem_flatMap.2 ⟨c, hc, hu⟩)

theorem preorder_trans {t u v : Tree} (hu : u ∈ t.preorder) (hv : v ∈ u.preorder) :
    v ∈ t.preorder := by
  induction t using induct with
  | step t ih =>
    have hu' := hu
    rw [preorder_eq, List.mem_cons, List.mem_flatMap] at hu'
    rcases hu' with rfl | ⟨c, hc, hu'⟩
    · exact hv
    · exact mem_preorder_of_child hc (ih c hc hu')

/-- All nodes of a tree that stands below a given node, each with its parent. -/
def withParents : Tree → Option Tree → List (Option Tree × Tree) :=
  fold fun t results parent => (parent, t) :: results.flatMap fun (_, below) => below (some t)

theorem withParents_eq (t : Tree) (parent : Option Tree) :
    t.withParents parent = (parent, t) :: t.children.flatMap fun c => c.withParents (some t) := by
  rw [withParents, fold_node, List.flatMap_map]

theorem mem_preorder_of_withParents {t u : Tree} {parent above : Option Tree}
    (h : (above, u) ∈ t.withParents parent) : u ∈ t.preorder := by
  induction t using induct generalizing parent with
  | step t ih =>
    rw [withParents_eq, List.mem_cons, List.mem_flatMap] at h
    rcases h with h | ⟨c, hc, h⟩
    · cases h
      exact mem_preorder_self _
    · exact mem_preorder_of_child hc (ih c hc h)

theorem exists_mem_withParents {t u : Tree} (h : u ∈ t.preorder) (parent : Option Tree) :
    ∃ above, (above, u) ∈ t.withParents parent := by
  induction t using induct generalizing parent with
  | step t ih =>
    rw [preorder_eq, List.mem_cons, List.mem_flatMap] at h
    rw [withParents_eq]
    rcases h with rfl | ⟨c, hc, h⟩
    · exact ⟨parent, List.mem_cons_self⟩
    · obtain ⟨above, habove⟩ := ih c hc h (some t)
      exact ⟨above, List.mem_cons_of_mem _ (List.mem_flatMap.2 ⟨c, hc, habove⟩)⟩

/-! ## Nesting -/

/-- The nodes stand one after the other between two positions. -/
def Ordered (start stop : Nat) : List Tree → Prop
  | [] => start ≤ stop
  | c :: rest => start ≤ c.span.start ∧ c.span.start ≤ c.span.stop ∧ Ordered c.span.stop stop rest

/-- A leaf that is not a name, such as punctuation or a comment. -/
def IsPunctuation (t : Tree) : Prop := t.children = [] ∧ t.kind.isName = false

/-- At most one child fills each of the fields, and every other child is punctuation. -/
def HoldsOnly (t : Tree) (fields : List Field) : Prop :=
  (∀ c ∈ t.children, c.IsPunctuation ∨ ∃ field ∈ fields, c.label.field = some field) ∧
    t.children.Pairwise fun a b =>
      ∀ field ∈ fields, ¬ (a.label.field = some field ∧ b.label.field = some field)

/-- The children of a node are where they have to be. -/
structure Nested (t : Tree) : Prop where
  ordered : Ordered t.span.start t.span.stop t.children
  leaf : t.kind.isName = true ∨ t.kind = .propertyIdentifier → t.children = []
  member : t.kind = .memberExpression → t.HoldsOnly [.object, .property]
  subscript : t.kind = .subscriptExpression → t.HoldsOnly [.object, .index]

instance : (start stop : Nat) → (children : List Tree) → Decidable (Ordered start stop children)
  | start, stop, [] => inferInstanceAs (Decidable (start ≤ stop))
  | start, stop, c :: rest =>
    have := instDecidableOrdered c.span.stop stop rest
    inferInstanceAs (Decidable (start ≤ c.span.start ∧ c.span.start ≤ c.span.stop ∧
      Ordered c.span.stop stop rest))

instance (t : Tree) : Decidable t.IsPunctuation :=
  inferInstanceAs (Decidable (t.children = [] ∧ t.kind.isName = false))

instance (t : Tree) (fields : List Field) : Decidable (t.HoldsOnly fields) :=
  inferInstanceAs (Decidable (_ ∧ _))

instance (t : Tree) : Decidable t.Nested :=
  decidable_of_iff (Ordered t.span.start t.span.stop t.children ∧
      (t.kind.isName = true ∨ t.kind = .propertyIdentifier → t.children = []) ∧
      (t.kind = .memberExpression → t.HoldsOnly [.object, .property]) ∧
      (t.kind = .subscriptExpression → t.HoldsOnly [.object, .index]))
    ⟨fun ⟨ordered, leaf, member, subscript⟩ => ⟨ordered, leaf, member, subscript⟩,
      fun h => ⟨h.ordered, h.leaf, h.member, h.subscript⟩⟩

/-- Every node of the tree is nested. -/
def WellNested (t : Tree) : Prop := ∀ u ∈ t.preorder, u.Nested

instance (t : Tree) : Decidable t.WellNested :=
  inferInstanceAs (Decidable (∀ u ∈ t.preorder, u.Nested))

variable {t : Tree}

theorem WellNested.nested (h : t.WellNested) : t.Nested := h t t.mem_preorder_self

theorem WellNested.child (h : t.WellNested) {c : Tree} (hc : c ∈ t.children) : c.WellNested :=
  fun u hu => h u (mem_preorder_of_child hc hu)

/-! ## Positions -/

variable {start stop : Nat} {children : List Tree}

theorem Ordered.le (h : Ordered start stop children) : start ≤ stop := by
  induction children generalizing start with
  | nil => exact h
  | cons c rest ih =>
    obtain ⟨hstart, hspan, hrest⟩ := h
    have := ih hrest
    omega

theorem Ordered.bounds (h : Ordered start stop children) {c : Tree} (hc : c ∈ children) :
    start ≤ c.span.start ∧ c.span.start ≤ c.span.stop ∧ c.span.stop ≤ stop := by
  induction children generalizing start with
  | nil => simp at hc
  | cons d rest ih =>
    obtain ⟨hstart, hspan, hrest⟩ := h
    rcases List.mem_cons.1 hc with rfl | hc
    · exact ⟨hstart, hspan, hrest.le⟩
    · have := ih hrest hc
      omega

/-- What stands before a node ends before it, and what stands after it begins after it. -/
theorem Ordered.around {before after : List Tree} {c : Tree}
    (h : Ordered start stop (before ++ c :: after)) :
    (∀ d ∈ before, d.span.stop ≤ c.span.start) ∧ ∀ d ∈ after, c.span.stop ≤ d.span.start := by
  induction before generalizing start with
  | nil =>
    obtain ⟨-, -, hrest⟩ := h
    exact ⟨by simp, fun d hd => (hrest.bounds hd).1⟩
  | cons b before ih =>
    obtain ⟨-, -, hrest⟩ := h
    obtain ⟨hbefore, hafter⟩ := ih hrest
    refine ⟨fun d hd => ?_, hafter⟩
    rcases List.mem_cons.1 hd with rfl | hd
    · exact (hrest.bounds (List.mem_append_right _ List.mem_cons_self)).1
    · exact hbefore d hd

/-- A node that spans something shares its span with none of its siblings. -/
theorem Ordered.span_ne {before after : List Tree} {c : Tree}
    (h : Ordered start stop (before ++ c :: after)) (hc : c.span.start < c.span.stop) :
    ∀ d ∈ before ++ after, d.span ≠ c.span := by
  obtain ⟨hbefore, hafter⟩ := h.around
  intro d hd heq
  rcases List.mem_append.1 hd with hd | hd
  · have := hbefore d hd
    rw [heq] at this
    omega
  · have := hafter d hd
    rw [heq] at this
    omega

/-- Siblings that overlap are one node. -/
theorem Ordered.eq_of_overlap (h : Ordered start stop children) {c d : Tree} (hc : c ∈ children)
    (hd : d ∈ children) (hcd : c.span.start < d.span.stop) (hdc : d.span.start < c.span.stop) :
    d = c := by
  obtain ⟨before, after, rfl⟩ := List.append_of_mem hc
  obtain ⟨hbefore, hafter⟩ := h.around
  rw [List.mem_append, List.mem_cons] at hd
  rcases hd with hd | rfl | hd
  · have := hbefore d hd
    omega
  · rfl
  · have := hafter d hd
    omega

/-- Among its siblings, a node that spans something is known by its span. -/
theorem Ordered.eq_of_span_eq (h : Ordered start stop children) {c d : Tree} (hc : c ∈ children)
    (hd : d ∈ children) (hspan : c.span.start < c.span.stop) (heq : d.span = c.span) : d = c :=
  h.eq_of_overlap hc hd (heq ▸ hspan) (heq ▸ hspan)

/-- Every node of a tree stands in the span of the tree. -/
theorem WellNested.bounds (h : t.WellNested) {u : Tree} (hu : u ∈ t.preorder) :
    t.span.start ≤ u.span.start ∧ u.span.start ≤ u.span.stop ∧ u.span.stop ≤ t.span.stop := by
  induction t using induct with
  | step t ih =>
    rw [preorder_eq, List.mem_cons, List.mem_flatMap] at hu
    rcases hu with rfl | ⟨c, hc, hu⟩
    · exact ⟨Nat.le_refl _, h.nested.ordered.le, Nat.le_refl _⟩
    · have hchild := h.nested.ordered.bounds hc
      have hbelow := ih c hc (h.child hc) hu
      omega

/-! ## Parts of accesses -/

theorem mem_of_child? {field : Field} {c : Tree} (h : t.child? field = some c) :
    c ∈ t.children ∧ c.label.field = some field := by
  refine ⟨List.mem_of_find?_eq_some h, ?_⟩
  simpa using List.find?_some h

/-- The child that fills a field is the only one. -/
theorem HoldsOnly.child?_eq {fields : List Field} (h : t.HoldsOnly fields) {field : Field}
    (hfield : field ∈ fields) {c : Tree} (hc : c ∈ t.children)
    (heq : c.label.field = some field) : t.child? field = some c := by
  obtain ⟨before, after, hsplit⟩ := List.append_of_mem hc
  have hpair := h.2
  rw [hsplit, List.pairwise_append] at hpair
  have hnone : before.find? (fun d => d.label.field == some field) = none := by
    refine List.find?_eq_none.2 fun d hd hd' => ?_
    exact hpair.2.2 d hd c List.mem_cons_self field hfield ⟨by simpa using hd', heq⟩
  rw [child?, hsplit, List.find?_append, hnone, Option.none_or,
    List.find?_cons_of_pos (by simpa using heq)]

/-- What is so of punctuation and of the parts of a node is so of all its children. -/
theorem HoldsOnly.forall_children {fields : List Field} (h : t.HoldsOnly fields) {P : Tree → Prop}
    (hpunct : ∀ c, c.IsPunctuation → P c)
    (hpart : ∀ field ∈ fields, ∀ c, t.child? field = some c → P c) : ∀ c ∈ t.children, P c := by
  intro c hc
  rcases h.1 c hc with hpunctuation | ⟨field, hfield, hfills⟩
  · exact hpunct c hpunctuation
  · exact hpart field hfield c (h.child?_eq hfield hc hfills)

/-- Where punctuation and the other parts give nothing, the children give what one part gives. -/
theorem HoldsOnly.flatMap_eq {α : Type} {fields : List Field} (h : t.HoldsOnly fields)
    {field : Field} (hfield : field ∈ fields) {part : Tree} (hpart : t.child? field = some part)
    {g : Tree → List α} (hpunct : ∀ c, c.IsPunctuation → g c = [])
    (hother : ∀ other ∈ fields, other ≠ field → ∀ c, t.child? other = some c → g c = []) :
    t.children.flatMap g = g part := by
  obtain ⟨hmem, hfills⟩ := mem_of_child? hpart
  have hnone : ∀ c ∈ t.children, c.label.field ≠ some field → g c = [] := by
    intro c hc hne
    rcases h.1 c hc with hpunctuation | ⟨other, hother', hfills'⟩
    · exact hpunct c hpunctuation
    · exact hother other hother' (fun heq => hne (heq ▸ hfills')) c (h.child?_eq hother' hc hfills')
  obtain ⟨before, after, hsplit⟩ := List.append_of_mem hmem
  have hpair := h.2
  rw [hsplit, List.pairwise_append, List.pairwise_cons] at hpair
  have hbefore : before.flatMap g = [] := by
    refine List.flatMap_eq_nil_iff.2 fun c hc => hnone c (by simp [hsplit, hc]) fun heq => ?_
    exact hpair.2.2 c hc part List.mem_cons_self field hfield ⟨heq, hfills⟩
  have hafter : after.flatMap g = [] := by
    refine List.flatMap_eq_nil_iff.2 fun c hc => hnone c (by simp [hsplit, hc]) fun heq => ?_
    exact hpair.2.1.1 c hc field hfield ⟨hfills, heq⟩
  rw [hsplit, List.flatMap_append, List.flatMap_cons, hbefore, hafter, List.nil_append,
    List.append_nil]

end Tree

/-- Of the results for all children, the one for the child that fills a field. -/
theorem pick?_map {α : Type} (field : Field) (f : Tree → α) (t : Tree) :
    pick? field (t.children.map fun c => (c, f c)) = (t.child? field).map f := by
  rw [pick?, Tree.child?, List.find?_map, Option.map_map]
  rfl

end Courier.Script
