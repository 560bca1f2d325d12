import Courier.Proofs.Outcome
import Courier.Proofs.Script.Nesting
import Mathlib.Tactic.Common

/-!
# References spell the name

Whatever the scopes of a script are, a span that `declaredReferences` finds is one where the script
has the name (`declaredReferences_spell`).  Renaming therefore never touches other text.
-/

namespace Courier.Script

open Outcome (bind_eq_ok mapError_eq_ok)

variable {source : Source} {name : List Char} {t : Tree} {spans : List Span}

theorem spells_eq_ok {b : Bool} (h : spells source name t = .ok b) :
    b = true ↔ source.textOf t = .ok name := by
  obtain ⟨s, hs, h⟩ := bind_eq_ok.1 h
  cases h
  rw [hs, beq_iff_eq, Except.ok.injEq]

/-- Whether a node is written as the name. -/
def isNamed (source : Source) (name : List Char) (t : Tree) : Except Text.Utf8.Fault Bool :=
  if t.kind.isName then spells source name t else pure false

theorem referencesBelow_eq (source : Source) (name : List Char) (t : Tree) :
    referencesBelow source name t = do
      if ← isNamed source name t then return [t.span]
      if ← declares source name t then return []
      return (← t.children.reverse.mapM (referencesBelow source name)).flatten := by
  rw [referencesBelow, Tree.fold_node, ← List.map_reverse, List.mapM_map]
  by_cases hname : t.kind.isName = true
  · simp only [isNamed, if_pos hname]
    rfl
  · simp only [isNamed, if_neg hname]
    rfl

/-- A span that the walk finds is the span of a node that is written as the name. -/
theorem exists_of_mem_referencesBelow (h : referencesBelow source name t = .ok spans) :
    ∀ span ∈ spans, ∃ u ∈ t.preorder, u.kind.isName = true ∧ u.span = span ∧
      source.textOf u = .ok name := by
  induction t using Tree.induct generalizing spans with
  | step t ih =>
    rw [referencesBelow_eq] at h
    obtain ⟨isReference, hreference, h⟩ := bind_eq_ok.1 h
    rcases isReference with _ | _
    · obtain ⟨isDeclared, -, h⟩ := bind_eq_ok.1 h
      rcases isDeclared with _ | _
      · obtain ⟨below, hbelow, h⟩ := bind_eq_ok.1 h
        cases h
        intro span hspan
        obtain ⟨found, hfound, hmem⟩ := List.mem_flatten.1 hspan
        obtain ⟨c, hc, hfound⟩ := Outcome.exists_of_mem_mapM hbelow found hfound
        obtain ⟨u, hu, hnamed⟩ := ih c (List.mem_reverse.1 hc) hfound span hmem
        exact ⟨u, Tree.mem_preorder_of_child (List.mem_reverse.1 hc) hu, hnamed⟩
      · cases h
        simp
    · cases h
      rw [isNamed] at hreference
      split at hreference
      · rename_i hname
        intro span hspan
        rw [List.mem_singleton.1 hspan]
        exact ⟨t, t.mem_preorder_self, hname, rfl, (spells_eq_ok hreference).1 rfl⟩
      · cases hreference

theorem exists_of_mem_references {scope : Tree} (h : references source name scope = .ok spans) :
    ∀ span ∈ spans, ∃ u ∈ scope.preorder, u.kind.isName = true ∧ u.span = span ∧
      source.textOf u = .ok name := by
  obtain ⟨below, hbelow, h⟩ := bind_eq_ok.1 h
  cases h
  intro span hspan
  obtain ⟨found, hfound, hmem⟩ := List.mem_flatten.1 hspan
  obtain ⟨c, hc, hfound⟩ := Outcome.exists_of_mem_mapM hbelow found hfound
  obtain ⟨u, hu, hnamed⟩ := exists_of_mem_referencesBelow hfound span hmem
  exact ⟨u, Tree.mem_preorder_of_child (List.mem_reverse.1 hc) hu, hnamed⟩

/-- Every span is found from the scope of a declaration. -/
theorem exists_of_mem_declaredReferences {root : Tree} {span : Span}
    (h : declaredReferences source name root = .ok spans) (hspan : span ∈ spans) :
    ∃ found, declarations source name root [] = .ok found ∧ ∃ d ∈ found, ∃ scope,
      d.scope source = .ok (some scope) ∧ ∃ u ∈ scope.preorder, u.kind.isName = true ∧
        u.span = span ∧ source.textOf u = .ok name := by
  obtain ⟨found, hfound, h⟩ := bind_eq_ok.1 h
  obtain ⟨lists, hlists, h⟩ := bind_eq_ok.1 h
  cases h
  obtain ⟨list, hlist, hmem⟩ := List.mem_flatten.1 hspan
  obtain ⟨d, hd, hreferences⟩ := Outcome.exists_of_mem_mapM hlists list hlist
  obtain ⟨scope?, hscope, hreferences⟩ := bind_eq_ok.1 hreferences
  rcases scope? with _ | scope
  · cases hreferences
    simp at hmem
  · exact ⟨found, hfound, d, hd, scope, hscope, exists_of_mem_references hreferences span hmem⟩

theorem declaredReferences_spell {root : Tree}
    (h : declaredReferences source name root = .ok spans) :
    ∀ span ∈ spans, source.slice span.start span.stop = .ok name := by
  intro span hspan
  obtain ⟨-, -, -, -, -, -, u, -, -, rfl, htext⟩ := exists_of_mem_declaredReferences h hspan
  exact htext

end Courier.Script
