import Courier.Proofs.Script.Nesting
import Courier.Script.Rendering
import Mathlib.Tactic.Common

/-!
# The first syntax error

A tree is searched for syntax errors with a stack, and only below nodes that are marked.  If the
marks can be relied on (`Tree.MarksFaults`), the search finds the first fault in document order.

* `find?_flatMap_filter_isSuspect`: nothing is passed over by leaving out the trees that are not
  marked.
* `firstFaultOn_eq`: the stack holds what is still to be listed in document order, so the search
  finds the first fault in that list.
* `describeSyntaxError_first` is the main statement.
-/

namespace Courier.Script

/-- A node of the tree at which or below which there is a fault is marked.  Other nodes may be
marked as well. -/
def Tree.MarksFaults (root : Tree) : Prop :=
  ∀ u ∈ root.preorder, (∃ v ∈ u.preorder, v.isFault = true) → u.label.hasError = true

instance : DecidablePred Tree.MarksFaults := fun root => inferInstanceAs (Decidable
  (∀ u ∈ root.preorder, (∃ v ∈ u.preorder, v.isFault = true) → u.label.hasError = true))

variable {t : Tree}

theorem Tree.MarksFaults.child (h : t.MarksFaults) {c : Tree} (hc : c ∈ t.children) :
    c.MarksFaults := fun u hu => h u (Tree.mem_preorder_of_child hc hu)

/-- There is no fault in a tree whose root is not marked. -/
theorem Tree.MarksFaults.find?_eq_none (h : t.MarksFaults) (hs : ¬ t.isSuspect = true) :
    t.preorder.find? Tree.isFault = none := by
  refine List.find?_eq_none.2 fun v hv hfault => hs ?_
  have hmark := h t t.mem_preorder_self ⟨v, hv, hfault⟩
  rw [Tree.isSuspect, hmark, Bool.true_or]

/-- The first fault in some trees is in one of those that are marked. -/
theorem find?_flatMap_filter_isSuspect (ts : List Tree) (h : ∀ t ∈ ts, t.MarksFaults) :
    ((ts.filter Tree.isSuspect).flatMap Tree.preorder).find? Tree.isFault =
      (ts.flatMap Tree.preorder).find? Tree.isFault := by
  induction ts with
  | nil => rfl
  | cons t ts ih =>
    have hrest := ih fun u hu => h u (List.mem_cons_of_mem _ hu)
    rw [List.flatMap_cons, List.find?_append, List.filter_cons]
    split
    · rw [List.flatMap_cons, List.find?_append, hrest]
    · rename_i hs
      rw [(h t List.mem_cons_self).find?_eq_none hs, Option.none_or, hrest]

/-- A search with a stack finds the first fault in the document order of the trees on it. -/
theorem firstFaultOn_eq (stack : List Tree) (h : ∀ t ∈ stack, t.MarksFaults) :
    firstFaultOn stack = ((stack.flatMap Tree.preorder).find? Tree.isFault).map Tree.label := by
  induction stack using firstFaultOn.induct with
  | case1 => rw [firstFaultOn, List.flatMap_nil, List.find?_nil, Option.map_none]
  | case2 t rest hfault =>
    rw [firstFaultOn, if_pos hfault, List.flatMap_cons, Tree.preorder_eq, List.cons_append,
      List.find?_cons_of_pos hfault, Option.map_some]
  | case3 t rest hfault ih =>
    have ht := h t List.mem_cons_self
    have hchildren : ∀ c ∈ t.children, c.MarksFaults := fun c hc => ht.child hc
    rw [pushAll_reverse] at ih
    have hstack : ∀ u ∈ t.children.filter Tree.isSuspect ++ rest, u.MarksFaults := by
      intro u hu
      rcases List.mem_append.1 hu with hu | hu
      · exact hchildren u (List.mem_filter.1 hu).1
      · exact h u (List.mem_cons_of_mem _ hu)
    rw [firstFaultOn, if_neg hfault, pushAll_reverse, ih hstack, List.flatMap_append,
      List.find?_append, find?_flatMap_filter_isSuspect _ hchildren, List.flatMap_cons,
      Tree.preorder_eq t, List.cons_append, List.find?_cons_of_neg hfault, List.find?_append]

/-- What is said of a fault is more than what is said when there is none. -/
theorem Label.faultText_ne (label : Label) : label.faultText ≠ "syntax error" := by
  have hplace : 0 < label.place.length := by
    have hat : (toString " at line ").length = 9 := rfl
    simp only [Label.place, String.length_append, hat]
    omega
  have hmissing : "missing token".length = 13 := rfl
  have hbare : "syntax error".length = 12 := rfl
  intro h
  have hlength := congrArg String.length h
  rw [Label.faultText, String.length_append] at hlength
  split at hlength <;> omega

theorem isFault_eq_false_iff {t : Tree} :
    t.isFault = false ↔ t.kind ≠ .error ∧ t.label.isMissing = false := by
  rw [← Bool.not_eq_true, Tree.isFault_iff, not_or, Bool.not_eq_true]

/-- In a tree whose marks can be relied on, the node that is reported is the first one in document
order that is a syntax error or missing, with its kind and its place counted from one.  No place is
reported exactly if there is no such node. -/
theorem describeSyntaxError_first (root : Tree) (hmarks : root.MarksFaults) :
    (∀ before v after, root.preorder = before ++ v :: after →
      (v.kind = .error ∨ v.label.isMissing = true) →
      (∀ u ∈ before, u.kind ≠ .error ∧ u.label.isMissing = false) →
      describeSyntaxError root =
        (if v.label.isMissing then "missing token" else "syntax error") ++
          s!" at line {v.label.row + 1}, column {v.label.column + 1}") ∧
    (describeSyntaxError root = "syntax error" ↔
      ∀ v ∈ root.preorder, v.kind ≠ .error ∧ v.label.isMissing = false) := by
  have hfirst := firstFaultOn_eq [root] fun t ht => List.mem_singleton.1 ht ▸ hmarks
  rw [List.flatMap_singleton] at hfirst
  constructor
  · intro before v after horder hv hbefore
    have hfound : root.preorder.find? Tree.isFault = some v := by
      rw [List.find?_eq_some_iff_append]
      refine ⟨Tree.isFault_iff.2 hv, before, after, horder, fun u hu => ?_⟩
      rw [isFault_eq_false_iff.2 (hbefore u hu)]
      rfl
    rw [describeSyntaxError, hfirst, hfound]
    rfl
  · rw [describeSyntaxError, hfirst]
    rcases hfound : root.preorder.find? Tree.isFault with _ | v
    · simp only [Option.map_none, true_iff]
      intro v hv
      exact isFault_eq_false_iff.1 (Bool.eq_false_iff.2 (List.find?_eq_none.1 hfound v hv))
    · simp only [Option.map_some, Label.faultText_ne, false_iff]
      intro hall
      have hfault := isFault_eq_false_iff.2 (hall v (List.mem_of_find?_eq_some hfound))
      rw [List.find?_some hfound] at hfault
      cases hfault

/-- A tree with a missing node that is nested below marked ones, before a syntax error. -/
def nestedFaults : Tree :=
  .node { kind := .program, span := ⟨0, 9⟩, hasError := true } [
    .node { kind := .identifier, span := ⟨0, 1⟩ } [],
    .node { kind := .statementBlock, span := ⟨1, 6⟩, hasError := true } [
      .node { kind := .identifier, span := ⟨1, 4⟩ } [],
      .node { kind := .callExpression, span := ⟨4, 6⟩, hasError := true } [
        .node { kind := .other ";", span := ⟨6, 6⟩, isMissing := true, hasError := true,
                row := 4, column := 9 } []]],
    .node { kind := .error, span := ⟨6, 9⟩, hasError := true, row := 5 } []]

theorem describeSyntaxError_first_nested :
    nestedFaults.MarksFaults ∧
    describeSyntaxError nestedFaults = "missing token at line 5, column 10" ∧
    describeSyntaxError nestedFaults ≠ "syntax error" := by
  have hmarks : nestedFaults.MarksFaults := by decide
  obtain ⟨hfault, hnone⟩ := describeSyntaxError_first nestedFaults hmarks
  refine ⟨hmarks, ?_, fun hbare => ?_⟩
  · exact hfault (nestedFaults.preorder.take 5) _ (nestedFaults.preorder.drop 6) rfl
      (.inr rfl) (by decide)
  · exact absurd (hnone.1 hbare) (by decide)

end Courier.Script
