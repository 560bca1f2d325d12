import Courier.Proofs.Collection.Building
import Courier.Proofs.Collection.Leaf
import Mathlib.Tactic.Common

/-!
# Items and failures of a tree

`Mirrored` says which items and failures belong to trees of files, folder by folder: a request that
is accepted is an item, one that is rejected is a failure, a file without request is neither, and a
folder is an item if and only if a request below it is accepted.  The items of a folder may be in any
order.  `Settled` says the same of the files as one list: each has one outcome, and the leaves come
from nowhere else (`Mirrored.settled`).
-/

namespace Courier.Collection

open FileTree (Placed filesIn filesAt)
open Schema (Rejection)

variable {o : Options}

/-- The item of a request is accepted, in this normal form. -/
def Accepted (o : Options) (r : Request) (content : Json) : Prop :=
  ∃ built, itemOf o.strategy r.metadata.name r = .ok built ∧ o.accept built.item = .ok content

/-- The item of a request is rejected. -/
def Rejected (o : Options) (r : Request) (rejection : Rejection) : Prop :=
  ∃ built, itemOf o.strategy r.metadata.name r = .ok built ∧ o.accept built.item = .error rejection

/-- The failure of the file of a rejected request. -/
def rejectedAt (path : String) (rejection : Rejection) : Failure :=
  ⟨path, rejection.message, .validation⟩

/-- Some request of the trees is accepted. -/
def HasLeaf (o : Options) (ts : List (FileTree (Option Request))) : Prop :=
  ∃ f ∈ filesIn [] ts, ∃ r content, f.content = some r ∧ Accepted o r content

/-- The items and failures that belong to trees. -/
inductive Mirrored (o : Options) :
    List (FileTree (Option Request)) → List Item → List Failure → Prop
  | nil : Mirrored o [] [] []
  | unread (name path : String) {ts : List (FileTree (Option Request))} {items : List Item}
      {failures : List Failure} (rest : Mirrored o ts items failures) :
      Mirrored o (.file name path none :: ts) items failures
  | accepted (name path : String) {r : Request} {content : Json}
      {ts : List (FileTree (Option Request))} {items : List Item} {failures : List Failure}
      (request : Accepted o r content) (rest : Mirrored o ts items failures) :
      Mirrored o (.file name path (some r) :: ts) (.request content :: items) failures
  | rejected (name path : String) {r : Request} {rejection : Rejection}
      {ts : List (FileTree (Option Request))} {items : List Item} {failures : List Failure}
      (request : Rejected o r rejection) (rest : Mirrored o ts items failures) :
      Mirrored o (.file name path (some r) :: ts) items (rejectedAt path rejection :: failures)
  | folder (name path : String) (shown : Option String)
      {children ts : List (FileTree (Option Request))} {inner inside items : List Item}
      {below failures : List Failure} (leaf : HasLeaf o children)
      (mirrored : Mirrored o children inner below) (perm : inside.Perm inner)
      (rest : Mirrored o ts items failures) :
      Mirrored o (.folder name path shown children :: ts)
        (.folder (FileTree.folder name path shown children).shownName inside :: items)
        (below ++ failures)
  | bare (name path : String) (shown : Option String)
      {children ts : List (FileTree (Option Request))} {inner items : List Item}
      {below failures : List Failure} (no_leaf : ¬ HasLeaf o children)
      (mirrored : Mirrored o children inner below) (rest : Mirrored o ts items failures) :
      Mirrored o (.folder name path shown children :: ts) items (below ++ failures)

/-- The outcome of each file: a leaf where the file stands, a failure with its path, or neither when
the file has no request. -/
inductive Settled (o : Options) :
    List (Placed (Option Request)) → List Leaf → List Failure → Prop
  | nil : Settled o [] [] []
  | unread (folders : List String) (path : String) {files : List (Placed (Option Request))}
      {leaves : List Leaf} {failures : List Failure} (rest : Settled o files leaves failures) :
      Settled o (⟨folders, path, none⟩ :: files) leaves failures
  | accepted (folders : List String) (path : String) {r : Request} {content : Json}
      {files : List (Placed (Option Request))} {leaves : List Leaf} {failures : List Failure}
      (request : Accepted o r content) (rest : Settled o files leaves failures) :
      Settled o (⟨folders, path, some r⟩ :: files) (⟨folders, content⟩ :: leaves) failures
  | rejected (folders : List String) (path : String) {r : Request} {rejection : Rejection}
      {files : List (Placed (Option Request))} {leaves : List Leaf} {failures : List Failure}
      (request : Rejected o r rejection) (rest : Settled o files leaves failures) :
      Settled o (⟨folders, path, some r⟩ :: files) leaves (rejectedAt path rejection :: failures)

theorem Settled.append {files files' : List (Placed (Option Request))} {leaves leaves' : List Leaf}
    {failures failures' : List Failure} (h : Settled o files leaves failures)
    (h' : Settled o files' leaves' failures') :
    Settled o (files ++ files') (leaves ++ leaves') (failures ++ failures') := by
  induction h with
  | nil => exact h'
  | unread folders path _ ih => exact .unread folders path ih
  | accepted folders path request _ ih => exact .accepted folders path request ih
  | rejected folders path request _ ih => exact .rejected folders path request ih

/-- Every leaf is the outcome of a file. -/
theorem Settled.exists_of_mem {files : List (Placed (Option Request))} {leaves : List Leaf}
    {failures : List Failure} (h : Settled o files leaves failures) {leaf : Leaf}
    (hleaf : leaf ∈ leaves) :
    ∃ f ∈ files, ∃ r, f.content = some r ∧ f.folders = leaf.folders ∧ Accepted o r leaf.item := by
  induction h with
  | nil => simp at hleaf
  | unread folders path _ ih =>
    obtain ⟨f, hf, hr⟩ := ih hleaf
    exact ⟨f, List.mem_cons_of_mem _ hf, hr⟩
  | accepted folders path request _ ih =>
    rcases List.mem_cons.1 hleaf with rfl | hleaf
    · exact ⟨_, List.mem_cons_self, _, rfl, rfl, request⟩
    · obtain ⟨f, hf, hr⟩ := ih hleaf
      exact ⟨f, List.mem_cons_of_mem _ hf, hr⟩
  | rejected folders path request _ ih =>
    obtain ⟨f, hf, hr⟩ := ih hleaf
    exact ⟨f, List.mem_cons_of_mem _ hf, hr⟩

theorem hasLeaf_of_mem {ts : List (FileTree (Option Request))} {folders : List String}
    {f : Placed (Option Request)} {r : Request} {content : Json} (hf : f ∈ filesIn folders ts)
    (hr : f.content = some r) (h : Accepted o r content) : HasLeaf o ts := by
  rw [FileTree.filesIn_eq_map, List.mem_map] at hf
  obtain ⟨g, hg, rfl⟩ := hf
  exact ⟨g, hg, r, content, hr, h⟩

/-- Of trees without an accepted request there are no leaves. -/
theorem Settled.eq_nil {ts : List (FileTree (Option Request))} {folders : List String}
    {leaves : List Leaf} {failures : List Failure}
    (h : Settled o (filesIn folders ts) leaves failures) (hnone : ¬ HasLeaf o ts) :
    leaves = [] := by
  refine List.eq_nil_iff_forall_not_mem.2 fun leaf hleaf => ?_
  obtain ⟨f, hf, r, hr, -, haccepted⟩ := h.exists_of_mem hleaf
  exact hnone (hasLeaf_of_mem hf hr haccepted)

/-- Of trees with an accepted request there is a leaf. -/
theorem Settled.ne_nil {files : List (Placed (Option Request))} {leaves : List Leaf}
    {failures : List Failure} (h : Settled o files leaves failures) {f : Placed (Option Request)}
    {r : Request} {content : Json} (hf : f ∈ files) (hr : f.content = some r)
    (haccepted : Accepted o r content) : leaves ≠ [] := by
  induction h with
  | nil => simp at hf
  | unread folders path _ ih =>
    rcases List.mem_cons.1 hf with rfl | hf
    · cases hr
    · exact ih hf
  | accepted => exact List.cons_ne_nil _ _
  | rejected folders path request _ ih =>
    rcases List.mem_cons.1 hf with rfl | hf
    · cases hr
      obtain ⟨built, hbuilt, haccept⟩ := haccepted
      obtain ⟨built', hbuilt', hreject⟩ := request
      cases hbuilt.symm.trans hbuilt'
      cases haccept.symm.trans hreject
    · exact ih hf

/-- What is mirrored folder by folder is settled file by file. -/
theorem Mirrored.settled {ts : List (FileTree (Option Request))} {items : List Item}
    {failures : List Failure} (h : Mirrored o ts items failures) (folders : List String) :
    ∃ leaves, Settled o (filesIn folders ts) leaves failures ∧
      (leavesIn folders items).Perm leaves := by
  induction h generalizing folders with
  | nil => exact ⟨[], .nil, by rw [leavesIn]⟩
  | unread name path _ ih =>
    obtain ⟨leaves, hsettled, hperm⟩ := ih folders
    exact ⟨leaves, .unread folders path hsettled, hperm⟩
  | accepted name path request _ ih =>
    obtain ⟨leaves, hsettled, hperm⟩ := ih folders
    refine ⟨_, .accepted folders path request hsettled, ?_⟩
    rw [leavesIn, Item.leaves]
    exact hperm.cons _
  | rejected name path request _ ih =>
    obtain ⟨leaves, hsettled, hperm⟩ := ih folders
    exact ⟨leaves, .rejected folders path request hsettled, hperm⟩
  | folder name path shown leaf _ perm _ ihinside ih =>
    obtain ⟨inner, hinner, hinnerperm⟩ := ihinside (folders ++ [_])
    obtain ⟨leaves, hsettled, hperm⟩ := ih folders
    refine ⟨inner ++ leaves, ?_, ?_⟩
    · exact hinner.append hsettled
    · rw [leavesIn, Item.leaves]
      exact ((leavesIn_perm _ perm).trans hinnerperm).append hperm
  | bare name path shown no_leaf _ _ ihinside ih =>
    obtain ⟨inner, hinner, -⟩ := ihinside (folders ++ [_])
    obtain ⟨leaves, hsettled, hperm⟩ := ih folders
    obtain rfl := hinner.eq_nil no_leaf
    exact ⟨leaves, hinner.append hsettled, hperm⟩

theorem Mirrored.append {ts ts' : List (FileTree (Option Request))} {items items' : List Item}
    {failures failures' : List Failure} (h : Mirrored o ts items failures)
    (h' : Mirrored o ts' items' failures') :
    Mirrored o (ts ++ ts') (items ++ items') (failures ++ failures') := by
  induction h with
  | nil => exact h'
  | unread name path _ ih => exact .unread name path ih
  | accepted name path request _ ih => exact .accepted name path request ih
  | rejected name path request _ ih => exact .rejected name path request ih
  | folder name path shown leaf mirrored perm _ _ ih =>
    rw [List.append_assoc]
    exact .folder name path shown leaf mirrored perm ih
  | bare name path shown no_leaf mirrored _ _ ih =>
    rw [List.append_assoc]
    exact .bare name path shown no_leaf mirrored ih

/-- There are items exactly if a request is accepted. -/
theorem Mirrored.ne_nil_iff {ts : List (FileTree (Option Request))} {items : List Item}
    {failures : List Failure} (h : Mirrored o ts items failures)
    (hfilled : ∀ item ∈ items, item.Filled) : items ≠ [] ↔ HasLeaf o ts := by
  obtain ⟨leaves, hsettled, hperm⟩ := h.settled []
  constructor
  · intro hne
    by_contra hnone
    have hnil := hsettled.eq_nil hnone
    rw [hnil] at hperm
    exact hne (eq_nil_of_leavesIn hfilled hperm.eq_nil)
  · rintro ⟨f, hf, r, content, hr, haccepted⟩ rfl
    rw [leavesIn] at hperm
    exact hsettled.ne_nil hf hr haccepted hperm.nil_eq.symm

/-- What is in a folder makes the folder an item, unless there is nothing in it. -/
theorem Mirrored.inFolder {children : List (FileTree (Option Request))} {inner : List Item}
    {failures : List Failure} {y : Yield} (name path : String) (shown : Option String)
    (h : Mirrored o children inner failures) (hfilled : ∀ item ∈ inner, item.Filled)
    (hperm : y.items.Perm inner) :
    let label := (FileTree.folder name path shown children).shownName
    Mirrored o [.folder name path shown children] (y.inFolder label).items failures ∧
      ∀ item ∈ (y.inFolder label).items, item.Filled := by
  intro label
  have hiff := h.ne_nil_iff hfilled
  rw [Yield.inFolder]
  rcases hitems : y.items with _ | ⟨item, items⟩
  · rw [hitems] at hperm
    have hnone : ¬ HasLeaf o children := fun hleaf => hiff.2 hleaf hperm.nil_eq.symm
    refine ⟨?_, by simp⟩
    simpa using Mirrored.bare name path shown hnone h .nil
  · rw [hitems] at hperm
    have hleaf : HasLeaf o children := hiff.1 fun hnil => by
      rw [hnil] at hperm
      exact absurd hperm.eq_nil (List.cons_ne_nil _ _)
    constructor
    · simpa using Mirrored.folder name path shown hleaf h hperm .nil
    · intro folder hfolder
      rw [List.mem_singleton.1 hfolder]
      exact .folder label (List.cons_ne_nil _ _) fun i hi => hfilled i (hperm.mem_iff.1 hi)

end Courier.Collection
