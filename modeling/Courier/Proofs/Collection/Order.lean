import Courier.Collection.Tree
import Mathlib.Data.List.Nodup
import Mathlib.Data.List.Sort
import Mathlib.Tactic.Common

/-!
# The order of children

Children of a folder are sorted by their keys, and sorting is stable.  Whether one more child is
there, and what it is, does therefore not change the order of the others: they come in two parts,
with the child between them, and where it comes depends on its key alone (`exists_mergeSort`).

When keys tell all members apart there is one order only, whatever order the members are given in
(`sortedByKey_perm`), and it is strict (`pairwise_mergeSort_of_nodup`).

* `exists_arrange_request`: a request among its siblings.  Its key is its rank.
* `exists_arrange_folder`: a folder among its siblings.  Its key is its name.
-/

namespace Courier.Collection

/-! ## Sorting by keys -/

section Sorting

variable {κ β : Type} {le : κ → κ → Bool}
  (trans : ∀ a b c, le a b = true → le b c = true → le a c = true)
  (total : ∀ a b, (le a b || le b a) = true)

/-- The order of pairs by their keys. -/
def keyLE (le : κ → κ → Bool) (a b : κ × β) : Prop := le a.1 b.1 = true

instance (le : κ → κ → Bool) : DecidableRel (keyLE (β := β) le) :=
  fun a b => inferInstanceAs (Decidable (le a.1 b.1 = true))

/-- Pairs sorted by their keys. -/
def sortedByKey (le : κ → κ → Bool) (pairs : List (κ × β)) : List (κ × β) :=
  pairs.mergeSort fun a b => le a.1 b.1

include trans total

theorem pairwise_sortedByKey (pairs : List (κ × β)) :
    (sortedByKey le pairs).Pairwise (keyLE le) :=
  List.pairwise_mergeSort (fun a b c => trans a.1 b.1 c.1) (fun a b => total a.1 b.1) pairs

/-- What is sorted does not depend on the order it is given in, unless different members come before
one another. -/
theorem mergeSort_eq_of_perm {xs xs' : List κ}
    (antisymm : ∀ a ∈ xs, ∀ b ∈ xs, le a b = true → le b a = true → a = b) (h : xs.Perm xs') :
    xs.mergeSort le = xs'.mergeSort le := by
  have hsort : (xs.mergeSort le).Perm xs := List.mergeSort_perm _ _
  have hsort' : (xs'.mergeSort le).Perm xs := (List.mergeSort_perm _ _).trans h.symm
  refine List.Perm.eq_of_pairwise (fun a b ha hb => ?_) (List.pairwise_mergeSort trans total xs)
    (List.pairwise_mergeSort trans total xs') (hsort.trans hsort'.symm)
  exact antisymm a (hsort.mem_iff.1 ha) b (hsort'.mem_iff.1 hb)

/-- Pairs with distinct keys are sorted in one way only. -/
theorem sortedByKey_perm (antisymm : ∀ a b, le a b = true → le b a = true → a = b)
    {pairs pairs' : List (κ × β)} (hperm : pairs.Perm pairs') (hkeys : (pairs.map (·.1)).Nodup) :
    sortedByKey le pairs = sortedByKey le pairs' := by
  refine mergeSort_eq_of_perm (fun a b c => trans a.1 b.1 c.1) (fun a b => total a.1 b.1) ?_ hperm
  intro a ha b hb hab hba
  exact List.inj_on_of_nodup_map hkeys ha hb (antisymm a.1 b.1 hab hba)

omit trans total in
/-- Values that are sorted by their keys are sorted as the values of the pairs. -/
theorem sortedByKey_map {τ : Type} (key : τ → κ) (value : τ → β) (xs : List τ) :
    (sortedByKey le (xs.map fun x => (key x, value x))).map (·.2) =
      (xs.mergeSort fun a b => le (key a) (key b)).map value := by
  have hmap := List.map_mergeSort (r := fun a b => le (key a) (key b))
    (s := fun a b : κ × β => le a.1 b.1) (f := fun x => (key x, value x)) (l := xs)
    fun _ _ _ _ => rfl
  rw [sortedByKey, ← hmap, List.map_map]
  rfl

/-- What is sorted by keys is sorted strictly when names tell it apart. -/
theorem pairwise_mergeSort_of_nodup {τ : Type} {R : τ → τ → Prop} (key : τ → κ) (name : τ → String)
    {xs : List τ} (hnames : (xs.map name).Nodup)
    (himp : ∀ t u, le (key t) (key u) = true → name t ≠ name u → R t u) :
    (xs.mergeSort fun t u => le (key t) (key u)).Pairwise R := by
  have hsorted := List.pairwise_mergeSort (fun a b c => trans (key a) (key b) (key c))
    (fun a b => total (key a) (key b)) xs
  have hperm := List.mergeSort_perm xs fun t u => le (key t) (key u)
  have hnodup := ((hperm.map name).nodup_iff).2 hnames
  rw [List.Nodup, List.pairwise_map] at hnodup
  exact hsorted.imp₂ himp hnodup

/-- A pair in front is put before the first one that does not come before it. -/
theorem sortedByKey_cons (a : κ × β) (pairs : List (κ × β)) :
    sortedByKey le (a :: pairs) = (sortedByKey le pairs).orderedInsert (keyLE le) a := by
  obtain ⟨before, after, hcons, hrest, hbefore⟩ := List.mergeSort_cons
    (fun a b c => trans a.1 b.1 c.1) (fun a b => total a.1 b.1) a pairs
  have hsorted := pairwise_sortedByKey trans total (a :: pairs)
  rw [sortedByKey, hcons, List.pairwise_append, List.pairwise_cons] at hsorted
  have hafter : ∀ b ∈ after, keyLE le a b := hsorted.2.1.1
  rw [sortedByKey, sortedByKey, hcons, hrest, List.orderedInsert_eq_take_drop]
  have htake : ∀ b ∈ before, (decide ¬ keyLE le a b) = true := fun b hb => by
    simpa [keyLE] using hbefore b hb
  rw [List.takeWhile_append_of_pos htake, List.dropWhile_append_of_pos htake]
  rcases after with _ | ⟨b, after⟩
  · simp
  · have hb := hafter b List.mem_cons_self
    simp [hb]

omit trans total in
theorem mem_orderedInsert_of_forall {a : κ × β} {pairs : List (κ × β)} {P : κ × β → Prop}
    (ha : P a) (h : ∀ b ∈ pairs, P b) : ∀ b ∈ pairs.orderedInsert (keyLE le) a, P b := by
  intro b hb
  rcases (List.mem_orderedInsert _).1 hb with rfl | hb
  · exact ha
  · exact h b hb

omit total in
/-- The place of a key in a sorted list. -/
theorem exists_orderedInsert (k : κ) {pairs : List (κ × β)} (h : pairs.Pairwise (keyLE le)) :
    ∃ before after, pairs = before ++ after ∧ (∀ b ∈ after, le k b.1 = true) ∧
      ∀ v, pairs.orderedInsert (keyLE le) (k, v) = before ++ (k, v) :: after := by
  induction pairs with
  | nil => exact ⟨[], [], rfl, by simp, fun v => rfl⟩
  | cons b pairs ih =>
    rw [List.pairwise_cons] at h
    by_cases hle : le k b.1 = true
    · refine ⟨[], b :: pairs, rfl, ?_, fun v => ?_⟩
      · exact List.forall_mem_cons.2 ⟨hle, fun c hc => trans _ _ _ hle (h.1 c hc)⟩
      · exact List.orderedInsert_cons_of_le _ _ hle
    · obtain ⟨before, after, rfl, hafter, hinsert⟩ := ih h.2
      refine ⟨b :: before, after, rfl, hafter, fun v => ?_⟩
      have hnot : ¬ keyLE le (k, v) b := hle
      rw [List.orderedInsert_of_not_le _ _ hnot, hinsert]
      rfl

/-- Putting another pair into a list leaves the place of a key between the same pairs. -/
theorem exists_orderedInsert_middle (a : κ × β) (k : κ) (before : List (κ × β))
    {after : List (κ × β)} (h : ∀ b ∈ after, le k b.1 = true) :
    ∃ before' after', (before ++ after).orderedInsert (keyLE le) a = before' ++ after' ∧
      (∀ b ∈ after', le k b.1 = true) ∧
      ∀ v, (before ++ (k, v) :: after).orderedInsert (keyLE le) a =
        before' ++ (k, v) :: after' := by
  induction before with
  | nil =>
    by_cases hle : le a.1 k = true
    · refine ⟨[a], after, ?_, h, fun v => List.orderedInsert_cons_of_le _ _ hle⟩
      rcases after with _ | ⟨b, after⟩
      · rfl
      · exact List.orderedInsert_cons_of_le _ _ (trans _ _ _ hle (h b List.mem_cons_self))
    · have hk : le k a.1 = true := by
        simpa [hle] using total a.1 k
      exact ⟨[], after.orderedInsert (keyLE le) a, rfl, mem_orderedInsert_of_forall hk h,
        fun v => List.orderedInsert_of_not_le _ _ hle⟩
  | cons b before ih =>
    by_cases hle : keyLE le a b
    · exact ⟨a :: b :: before, after, List.orderedInsert_cons_of_le _ _ hle, h,
        fun v => List.orderedInsert_cons_of_le _ _ hle⟩
    · obtain ⟨before', after', hinsert, hafter, hmiddle⟩ := ih
      refine ⟨b :: before', after', ?_, hafter, fun v => ?_⟩
      · rw [List.cons_append, List.orderedInsert_of_not_le _ _ hle, hinsert]
        rfl
      · rw [List.cons_append, List.orderedInsert_of_not_le _ _ hle, hmiddle]
        rfl

/-- Where a pair comes depends on its key alone, and the others come in the same order without
it. -/
theorem exists_sortedByKey (k : κ) (before after : List (κ × β)) :
    ∃ before' after', sortedByKey le (before ++ after) = before' ++ after' ∧
      ∀ v, sortedByKey le (before ++ (k, v) :: after) = before' ++ (k, v) :: after' := by
  -- What comes after the place of `k` is kept in view for the next pair in front.
  suffices h : ∃ before' after', sortedByKey le (before ++ after) = before' ++ after' ∧
      (∀ b ∈ after', le k b.1 = true) ∧
      ∀ v, sortedByKey le (before ++ (k, v) :: after) = before' ++ (k, v) :: after' by
    obtain ⟨before', after', hsort, -, hmiddle⟩ := h
    exact ⟨before', after', hsort, hmiddle⟩
  induction before with
  | nil =>
    obtain ⟨before', after', hsplit, hafter, hinsert⟩ :=
      exists_orderedInsert trans k (pairwise_sortedByKey trans total after)
    refine ⟨before', after', hsplit, hafter, fun v => ?_⟩
    rw [List.nil_append, sortedByKey_cons trans total, hinsert]
  | cons a before ih =>
    obtain ⟨before', after', hsort, hafter, hmiddle⟩ := ih
    obtain ⟨before'', after'', hinsert, hafter', hmiddle'⟩ :=
      exists_orderedInsert_middle trans total a k before' hafter
    refine ⟨before'', after'', ?_, hafter', fun v => ?_⟩
    · rw [List.cons_append, sortedByKey_cons trans total, hsort, hinsert]
    · rw [List.cons_append, sortedByKey_cons trans total, hmiddle, hmiddle']

end Sorting

/-! ## Names and ranks -/

/-- The order of names. -/
def nameLE (a b : String) : Bool := decide (a ≤ b)

theorem nameLE_trans (a b c : String) (hab : nameLE a b = true) (hbc : nameLE b c = true) :
    nameLE a c = true :=
  decide_eq_true (String.le_trans (of_decide_eq_true hab) (of_decide_eq_true hbc))

theorem nameLE_total (a b : String) : (nameLE a b || nameLE b a) = true := by
  rw [Bool.or_eq_true, nameLE, nameLE, decide_eq_true_iff, decide_eq_true_iff]
  exact String.le_total a b

theorem nameLE_antisymm (a b : String) (hab : nameLE a b = true) (hba : nameLE b a = true) :
    a = b :=
  String.le_antisymm (of_decide_eq_true hab) (of_decide_eq_true hba)

theorem Rank.le_trans (a b c : Rank) (hab : a.le b = true) (hbc : b.le c = true) :
    a.le c = true := by
  have htrans : a.name ≤ b.name → b.name ≤ c.name → a.name ≤ c.name := String.le_trans
  rcases a with ⟨_ | m, a⟩ <;> rcases b with ⟨_ | n, b⟩ <;> rcases c with ⟨_ | k, c⟩ <;>
    simp only [Rank.le, Bool.or_eq_true, Bool.and_eq_true, decide_eq_true_iff, reduceCtorEq]
      at hab hbc htrans ⊢
  · exact htrans hab hbc
  · rcases hab with hab | ⟨rfl, hab⟩
    · rcases hbc with hbc | ⟨rfl, -⟩
      · exact .inl (by omega)
      · exact .inl hab
    · rcases hbc with hbc | ⟨rfl, hbc⟩
      · exact .inl hbc
      · exact .inr ⟨rfl, htrans hab hbc⟩

theorem Rank.le_total (a b : Rank) : (a.le b || b.le a) = true := by
  have htotal := String.le_total a.name b.name
  rcases a with ⟨_ | m, a⟩ <;> rcases b with ⟨_ | n, b⟩ <;>
    simp only [Rank.le, Bool.or_eq_true, Bool.and_eq_true, decide_eq_true_iff, reduceCtorEq,
      or_true, true_or] at htotal ⊢
  · exact htotal
  · rcases lt_trichotomy m n with h | rfl | h
    · exact .inl (.inl h)
    · rcases htotal with h | h
      · exact .inl (.inr ⟨rfl, h⟩)
      · exact .inr (.inr ⟨rfl, h⟩)
    · exact .inr (.inl h)

theorem Rank.le_antisymm (a b : Rank) (hab : a.le b = true) (hba : b.le a = true) : a = b := by
  have hname : a.name ≤ b.name → b.name ≤ a.name → a.name = b.name := String.le_antisymm
  rcases a with ⟨_ | m, a⟩ <;> rcases b with ⟨_ | n, b⟩ <;>
    simp only [Rank.le, Bool.or_eq_true, Bool.and_eq_true, decide_eq_true_iff, reduceCtorEq]
      at hab hba hname
  · rw [hname hab hba]
  · rcases hab with hab | ⟨rfl, hab⟩
    · rcases hba with hba | ⟨rfl, -⟩ <;> omega
    · rcases hba with hba | ⟨-, hba⟩
      · omega
      · rw [hname hab hba]

/-! ## Arranging -/

/-- A folder among children, with its name. -/
def Child.folder? : Child → Option (String × Building Yield)
  | .folder name build => some (name, build)
  | _ => none

/-- A request among children, with its rank. -/
def Child.request? : Child → Option (Rank × Building Yield)
  | .request rank build => some (rank, build)
  | _ => none

/-- Folders by name, and then requests by rank. -/
def inOrder (folders : List (String × Building Yield)) (requests : List (Rank × Building Yield)) :
    List (Building Yield) :=
  (sortedByKey nameLE folders).map (·.2) ++ (sortedByKey Rank.le requests).map (·.2)

theorem arrange_eq (children : List Child) :
    arrange children =
      inOrder (children.filterMap Child.folder?) (children.filterMap Child.request?) := rfl

theorem exists_inOrder_request (folders : List (String × Building Yield)) (rank : Rank)
    (before after : List (Rank × Building Yield)) :
    ∃ first last, inOrder folders (before ++ after) = first ++ last ∧
      ∀ build, inOrder folders (before ++ (rank, build) :: after) = first ++ build :: last := by
  obtain ⟨before', after', hsort, hmiddle⟩ :=
    exists_sortedByKey Rank.le_trans Rank.le_total rank before after
  refine ⟨(sortedByKey nameLE folders).map (·.2) ++ before'.map (·.2), after'.map (·.2), ?_,
    fun build => ?_⟩
  · rw [inOrder, hsort, List.map_append, List.append_assoc]
  · rw [inOrder, hmiddle, List.map_append, List.map_cons, List.append_assoc]

theorem exists_inOrder_folder (requests : List (Rank × Building Yield)) (name : String)
    (before after : List (String × Building Yield)) :
    ∃ first last, ∀ build,
      inOrder (before ++ (name, build) :: after) requests = first ++ build :: last := by
  obtain ⟨before', after', -, hmiddle⟩ :=
    exists_sortedByKey nameLE_trans nameLE_total name before after
  refine ⟨before'.map (·.2), after'.map (·.2) ++ (sortedByKey Rank.le requests).map (·.2),
    fun build => ?_⟩
  rw [inOrder, hmiddle, List.map_append, List.map_cons, List.append_assoc, List.cons_append]

/-- What is arranged around a request depends neither on the request nor on whether it is there. -/
theorem exists_arrange_request (rank : Rank) (before after : List Child) :
    ∃ first last, arrange (before ++ .nothing :: after) = first ++ last ∧
      ∀ build, arrange (before ++ .request rank build :: after) = first ++ build :: last := by
  obtain ⟨first, last, hwithout, hwith⟩ := exists_inOrder_request
    (before.filterMap Child.folder? ++ after.filterMap Child.folder?) rank
    (before.filterMap Child.request?) (after.filterMap Child.request?)
  refine ⟨first, last, ?_, fun build => ?_⟩
  · rw [arrange_eq, List.filterMap_append, List.filterMap_append]
    exact hwithout
  · rw [arrange_eq, List.filterMap_append, List.filterMap_append]
    exact hwith build

/-- What is arranged around a folder does not depend on what is in it. -/
theorem exists_arrange_folder (name : String) (before after : List Child) :
    ∃ first last, ∀ build,
      arrange (before ++ .folder name build :: after) = first ++ build :: last := by
  obtain ⟨first, last, hwith⟩ := exists_inOrder_folder
    (before.filterMap Child.request? ++ after.filterMap Child.request?) name
    (before.filterMap Child.folder?) (after.filterMap Child.folder?)
  refine ⟨first, last, fun build => ?_⟩
  rw [arrange_eq, List.filterMap_append, List.filterMap_append]
  exact hwith build

end Courier.Collection
