import Courier.Proofs.Script.Nesting
import Mathlib.Tactic.Common

/-!
# Positions in trees

A node is the same wherever it stands, so what its surroundings say about it is said of its
position: the node with the nodes above it.  `Under s p` walks down from one position to another,
and `Clear` says that a walk up meets nothing of a kind in between.

Two walks up from one node either end at the same place or one passes the end of the other
(`Clear.compare`).  In a well nested tree a leaf that spans something is at one position only
(`Under.eq_of_span_eq`).
-/

namespace Courier.Script

/-- A node with the nodes above it, the nearest first. -/
abbrev Position := List Tree

/-- A walk down, from child to child, leads from the position `s` to another. -/
inductive Under (s : Position) : Position → Prop
  | refl : Under s s
  | child {t c : Tree} {above : Position} (under : Under s (t :: above)) (mem : c ∈ t.children) :
      Under s (c :: t :: above)

/-- A walk up leads from one position to another, and at no position strictly between them is
`Blocks` true. -/
inductive Clear (Blocks : Position → Prop) : Position → Position → Prop
  | parent {c : Tree} {s : Position} : Clear Blocks (c :: s) s
  | further {c t : Tree} {above s : Position} (free : ¬ Blocks (t :: above))
      (clear : Clear Blocks (t :: above) s) : Clear Blocks (c :: t :: above) s

variable {s p q : Position} {t c u : Tree} {above outer : Position}

/-! ## Walks down -/

theorem Under.trans (h : Under s p) (h' : Under p q) : Under s q := by
  induction h' with
  | refl => exact h
  | child _ mem ih => exact .child ih mem

/-- The first step of a walk down. -/
theorem Under.cases_child (h : Under (t :: above) p) :
    p = t :: above ∨ ∃ c ∈ t.children, Under (c :: t :: above) p := by
  induction h with
  | refl => exact .inl rfl
  | child _ mem ih =>
    rcases ih with heq | ⟨d, hd, ih⟩
    · cases heq
      exact .inr ⟨_, mem, .refl⟩
    · exact .inr ⟨d, hd, .child ih mem⟩

theorem under_iff : Under (t :: above) p ↔
    p = t :: above ∨ ∃ c ∈ t.children, Under (c :: t :: above) p := by
  refine ⟨Under.cases_child, ?_⟩
  rintro (rfl | ⟨c, hc, h⟩)
  · exact .refl
  · exact (Under.refl.child hc).trans h

theorem Under.mem_preorder (h : Under (t :: above) (u :: outer)) : u ∈ t.preorder := by
  generalize hp : u :: outer = p at h
  induction h generalizing u outer with
  | refl =>
    cases hp
    exact t.mem_preorder_self
  | child _ mem ih =>
    cases hp
    exact Tree.preorder_trans (ih rfl) (Tree.mem_preorder_of_child mem (Tree.mem_preorder_self _))

theorem Under.nth (h : Under s (t :: above)) (n : Nat) (hc : t.children[n]? = some c) :
    Under s (c :: t :: above) :=
  h.child (List.mem_of_getElem? hc)

/-- Every node of a tree is at a position of it. -/
theorem exists_under (h : u ∈ t.preorder) (above : Position) :
    ∃ outer, Under (t :: above) (u :: outer) := by
  induction t using Tree.induct generalizing above with
  | step t ih =>
    rw [Tree.preorder_eq, List.mem_cons, List.mem_flatMap] at h
    rcases h with rfl | ⟨c, hc, h⟩
    · exact ⟨above, .refl⟩
    · obtain ⟨outer, hunder⟩ := ih c hc h (t :: above)
      exact ⟨outer, (Under.refl.child hc).trans hunder⟩

theorem Under.suffix (h : Under s p) : s <:+ p := by
  induction h with
  | refl => exact List.suffix_rfl
  | child _ _ ih => exact ih.trans (List.suffix_cons _ _)

/-- The last step of a walk down from the root. -/
theorem Under.parent {root : Tree} (h : Under [root] (c :: t :: above)) :
    Under [root] (t :: above) ∧ c ∈ t.children := by
  cases h with
  | child under mem => exact ⟨under, mem⟩

/-- Whatever stands above a position of a tree is at a position of the tree. -/
theorem Under.of_suffix {root : Tree} (h : Under [root] p) (hs : t :: above <:+ p) :
    Under [root] (t :: above) := by
  induction h with
  | refl =>
    rcases List.suffix_cons_iff.1 hs with heq | hs
    · rw [heq]
      exact .refl
    · simp at hs
  | child under mem ih =>
    rcases List.suffix_cons_iff.1 hs with heq | hs
    · rw [heq]
      exact under.child mem
    · exact ih hs

/-! ## Walks up -/

variable {Blocks Blocks' : Position → Prop}

theorem Clear.imp {root : Tree} (h : Clear Blocks p s) (hp : Under [root] p)
    (himp : ∀ t above, Under [root] (t :: above) → Blocks' (t :: above) → Blocks (t :: above)) :
    Clear Blocks' p s := by
  induction h with
  | parent => exact .parent
  | further free _ ih =>
    have hparent := hp.parent.1
    exact .further (fun hblocks => free (himp _ _ hparent hblocks)) (ih hparent)

theorem Clear.trans (h : Clear Blocks p q) (free : ¬ Blocks q) (h' : Clear Blocks q s) :
    Clear Blocks p s := by
  induction h with
  | parent =>
    cases h' with
    | parent => exact .further free .parent
    | further free' clear => exact .further free (.further free' clear)
  | further free' _ ih => exact .further free' (ih free h')

/-- Of two walks up from one position, the longer passes the end of the shorter. -/
theorem Clear.compare (h : Clear Blocks p s) (h' : Clear Blocks' p q) :
    s = q ∨ (¬ Blocks' s ∧ Clear Blocks' s q) ∨ (¬ Blocks q ∧ Clear Blocks q s) := by
  induction h with
  | parent =>
    cases h' with
    | parent => exact .inl rfl
    | further free clear => exact .inr (.inl ⟨free, clear⟩)
  | further free clear ih =>
    cases h' with
    | parent => exact .inr (.inr ⟨free, clear⟩)
    | further _ clear' => exact ih clear'

/-- A walk up to a position of a tree starts below a child of the node there. -/
theorem Clear.under {root : Tree} (h : Clear Blocks p (t :: above)) (hp : Under [root] p) :
    Under [root] (t :: above) ∧ ∃ c ∈ t.children, Under (c :: t :: above) p := by
  generalize hs : t :: above = s at h
  induction h generalizing t above with
  | parent =>
    subst hs
    exact ⟨hp.parent.1, _, hp.parent.2, .refl⟩
  | further _ _ ih =>
    obtain ⟨hs, d, hd, hunder⟩ := ih hp.parent.1 hs
    exact ⟨hs, d, hd, hunder.child hp.parent.2⟩

/-- A walk up from below a node passes the node. -/
theorem Clear.cut (h : Clear Blocks p above) (hp : Under (c :: t :: above) p) :
    ¬ Blocks (t :: above) ∧ Clear Blocks p (t :: above) := by
  induction hp with
  | refl =>
    cases h with
    | further free _ => exact ⟨free, .parent⟩
  | child under _ ih =>
    cases h with
    | parent =>
      have hle := under.suffix.length_le
      simp only [List.length_cons] at hle
      omega
    | further free clear =>
      obtain ⟨hfree, hclear⟩ := ih clear
      exact ⟨hfree, .further free hclear⟩

/-! ## Leaves -/

/-- In a well nested tree a leaf that spans something is known by its span. -/
theorem Under.eq_of_span_eq {x y : Tree} {xs ys : Position} (hnest : t.WellNested)
    (hx : Under (t :: above) (x :: xs)) (hy : Under (t :: above) (y :: ys))
    (hxleaf : x.children = []) (hyleaf : y.children = []) (hspan : x.span.start < x.span.stop)
    (heq : y.span = x.span) : y :: ys = x :: xs := by
  induction t using Tree.induct generalizing above with
  | step t ih =>
    rcases hx.cases_child with hroot | ⟨c, hc, hx⟩
    · cases hroot
      rcases hy.cases_child with hy | ⟨d, hd, -⟩
      · exact hy
      · simp [hxleaf] at hd
    · rcases hy.cases_child with hroot | ⟨d, hd, hy⟩
      · cases hroot
        simp [hyleaf] at hc
      · -- both children hold the span, so they are one
        have hcx := (hnest.child hc).bounds hx.mem_preorder
        have hdy := (hnest.child hd).bounds hy.mem_preorder
        rw [heq] at hdy
        have hcd : d = c :=
          hnest.nested.ordered.eq_of_overlap hc hd (by omega) (by omega)
        subst hcd
        exact ih d hc (hnest.child hc) hx hy

end Courier.Script
