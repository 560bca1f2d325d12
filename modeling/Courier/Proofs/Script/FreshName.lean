import Courier.Proofs.Outcome
import Courier.Proofs.Script.Binding
import Courier.Script.FreshName
import Mathlib.Data.List.Nodup
import Mathlib.Data.List.Perm.Subperm
import Mathlib.Tactic.Common

/-!
# Free names

`freeName` gives the first variant of a name that no name of the tree is written as, wherever the
names of the tree can be read (`freeName_eq_ok_iff`).  No more variants are refused than the tree
has names (`FirstFree.le_length`).
-/

namespace Courier.Script

open Outcome

variable {source : Source} {base newName : List Char} {root t : Tree} {n : Nat}

/-! ## The names of a tree -/

/-- The text of every name in and below a node can be read. -/
def NamesReadable (source : Source) (t : Tree) : Prop :=
  ∀ u ∈ t.preorder, u.kind.isName = true → ∃ text, source.textOf u = .ok text

theorem namesReadable_iff : NamesReadable source t ↔
    (t.kind.isName = true → ∃ text, source.textOf t = .ok text) ∧
      ∀ c ∈ t.children, NamesReadable source c := by
  simp only [NamesReadable, Tree.preorder_eq t, List.mem_cons, List.mem_flatMap]
  constructor
  · exact fun h => ⟨h t (.inl rfl), fun c hc u hu => h u (.inr ⟨c, hc, hu⟩)⟩
  · rintro ⟨hself, hbelow⟩ u (rfl | ⟨c, hc, hu⟩)
    · exact hself
    · exact hbelow c hc u hu

theorem usedNames_eq (source : Source) (t : Tree) : usedNames source t = (do
    let own ← (if t.kind.isName then source.textOf t >>= fun text => pure [text] else pure [])
    let below ← t.children.reverse.mapM (usedNames source) >>= fun lists => pure lists.flatten
    return own ++ below) := by
  rw [usedNames, Tree.fold_node, ← List.map_reverse, List.mapM_map]
  simp only [bind_assoc, pure_bind]
  split
  · simp only [bind_assoc, pure_bind]
    rfl
  · rfl

/-- The names of a tree whose texts can be read are listed. -/
theorem collects_usedNames (hread : NamesReadable source t) :
    Collects (usedNames source t) fun text => ∃ u ∈ t.preorder, Named source text u := by
  induction t using Tree.induct with
  | step t ih =>
    obtain ⟨hself, hchildren⟩ := namesReadable_iff.1 hread
    have hown : Collects
        (if t.kind.isName then source.textOf t >>= fun text => pure [text] else pure [])
        fun text => Named source text t := by
      split
      · rename_i hname
        obtain ⟨text, htext⟩ := hself hname
        rw [htext]
        exact ⟨[text], rfl, fun s => by simp [Named, hname, htext, eq_comm]⟩
      · rename_i hname
        exact collects_nil fun text h => hname h.1
    have hbelow := Collects.flatten t.children.reverse fun c hc =>
      ih c (List.mem_reverse.1 hc) (hchildren c (List.mem_reverse.1 hc))
    rw [usedNames_eq]
    refine (hown.append hbelow).congr fun text => ?_
    simp only [Tree.preorder_eq t, List.mem_cons, List.mem_flatMap, List.mem_reverse]
    constructor
    · rintro (h | ⟨c, hc, u, hu, h⟩)
      · exact ⟨t, .inl rfl, h⟩
      · exact ⟨u, .inr ⟨c, hc, hu⟩, h⟩
    · rintro ⟨u, rfl | ⟨c, hc, hu⟩, h⟩
      · exact .inl h
      · exact .inr ⟨c, hc, u, hu, h⟩

/-- A tree whose names are listed has none that cannot be read. -/
theorem namesReadable_of_usedNames {used : List (List Char)} (h : usedNames source t = .ok used) :
    NamesReadable source t := by
  induction t using Tree.induct generalizing used with
  | step t ih =>
    rw [usedNames_eq] at h
    obtain ⟨own, hown, h⟩ := bind_eq_ok.1 h
    obtain ⟨below, hbelow, -⟩ := bind_eq_ok.1 h
    obtain ⟨lists, hlists, -⟩ := bind_eq_ok.1 hbelow
    refine namesReadable_iff.2 ⟨fun hname => ?_, fun c hc => ?_⟩
    · rw [if_pos hname] at hown
      obtain ⟨text, htext, -⟩ := bind_eq_ok.1 hown
      exact ⟨text, htext⟩
    · obtain ⟨list, hlist⟩ := exists_of_mapM_eq_ok hlists c (List.mem_reverse.2 hc)
      exact ih c hc hlist

/-! ## The search -/

/-- The variant of a number is the first that no name of the tree is written as. -/
structure FirstFree (source : Source) (base : List Char) (root : Tree) (n : Nat) : Prop where
  free : ∀ u ∈ root.preorder, ¬ Named source (nameVariant base n) u
  taken : ∀ m < n, ∃ u ∈ root.preorder, Named source (nameVariant base m) u

/-- Where one variant is not used the search ends, at the first that is not. -/
theorem freshFrom_eq (base : List Char) (used : List (List Char)) (n : Nat) :
    ∃ k, n ≤ k ∧ freshFrom base used n = nameVariant base k ∧ nameVariant base k ∉ used ∧
      ∀ m, n ≤ m → m < k → nameVariant base m ∈ used := by
  fun_induction freshFrom with
  | case1 n hused ih =>
    obtain ⟨k, hle, heq, hfree, htaken⟩ := ih
    refine ⟨k, Nat.le_of_succ_le hle, heq, hfree, fun m hm hlt => ?_⟩
    rcases Nat.eq_or_lt_of_le hm with rfl | hm
    · exact hused
    · exact htaken m hm hlt
  | case2 n hfree =>
    exact ⟨n, Nat.le_refl n, rfl, hfree, fun m hm hlt => absurd hlt (Nat.not_lt.2 hm)⟩

theorem FirstFree.unique {m : Nat} (h : FirstFree source base root n)
    (h' : FirstFree source base root m) : n = m := by
  rcases Nat.lt_trichotomy n m with hlt | heq | hlt
  · obtain ⟨u, hu, hnamed⟩ := h'.taken n hlt
    exact absurd hnamed (h.free u hu)
  · exact heq
  · obtain ⟨u, hu, hnamed⟩ := h.taken m hlt
    exact absurd hnamed (h'.free u hu)

/-- Each variant that is refused is written by a name of its own. -/
theorem FirstFree.le_length (h : FirstFree source base root n) :
    n ≤ (root.preorder.filter (·.kind.isName)).length := by
  have hnodup : ((List.range n).map fun m =>
      (Except.ok (nameVariant base m) : Except Text.Utf8.Fault (List Char))).Nodup :=
    List.nodup_range.map fun _ _ heq => nameVariant_inj (Except.ok.inj heq)
  have hsub : ((List.range n).map fun m => Except.ok (nameVariant base m)) ⊆
      (root.preorder.filter (·.kind.isName)).map source.textOf := by
    intro text htext
    obtain ⟨m, hm, rfl⟩ := List.mem_map.1 htext
    obtain ⟨u, hu, hname, htext⟩ := h.taken m (List.mem_range.1 hm)
    exact List.mem_map.2 ⟨u, List.mem_filter.2 ⟨hu, hname⟩, htext⟩
  simpa using (hnodup.subperm hsub).length_le

theorem exists_freeName (base : List Char) (hread : NamesReadable source root) :
    ∃ newName, freeName source base root = .ok newName := by
  obtain ⟨used, hused, -⟩ := collects_usedNames hread
  exact ⟨_, by rw [freeName, hused]; rfl⟩

/-- A free name is the first of the variants that no name is written as, in a tree whose names can
be read. -/
theorem freeName_eq_ok_iff : freeName source base root = .ok newName ↔
    NamesReadable source root ∧ ∃ n, newName = nameVariant base n ∧
      FirstFree source base root n := by
  have hfound : ∀ newName, freeName source base root = .ok newName →
      NamesReadable source root ∧ ∃ n, newName = nameVariant base n ∧
        FirstFree source base root n := by
    intro newName h
    obtain ⟨used, hused, h⟩ := bind_eq_ok.1 h
    cases h
    have hread := namesReadable_of_usedNames hused
    obtain ⟨used', hused', hmem⟩ := collects_usedNames hread
    obtain rfl : used = used' := Except.ok.inj (hused.symm.trans hused')
    obtain ⟨n, -, heq, hfree, htaken⟩ := freshFrom_eq base used 0
    refine ⟨hread, n, heq, fun u hu hnamed => hfree ((hmem _).2 ⟨u, hu, hnamed⟩), ?_⟩
    exact fun m hm => (hmem _).1 (htaken m (Nat.zero_le m) hm)
  refine ⟨hfound newName, ?_⟩
  rintro ⟨hread, n, rfl, hfirst⟩
  obtain ⟨newName, hnew⟩ := exists_freeName base hread
  obtain ⟨-, m, rfl, hfirst'⟩ := hfound newName hnew
  rw [hnew, hfirst.unique hfirst']

end Courier.Script
