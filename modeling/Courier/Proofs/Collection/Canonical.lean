import Courier.Proofs.Collection.Mirror
import Courier.Proofs.Collection.Order
import Courier.Proofs.Collection.Siblings
import Mathlib.Tactic.Common

/-!
# The order of items is canonical

When siblings have distinct names, the keys by which children are sorted are distinct too, and then
their order is the only one (`sortedByKey_perm`).  So building does not depend on the order in which
the trees in a folder are given (`childList_rearranged`).

`Canonical` says of trees and items, level by level and without a sorting function, that the items of
folders come first, by the name of the directory, and then those of requests, by number and by the
name of the file (`RankBefore`).  `canonical_of_ends` is induction on the depth of the tree.
-/

namespace Courier.Collection

open FileTree (Distinct Rearranged folderNames fileNames)
open Outcome (bind_eq_ok map_eq_ok)
open Schema (Rejection)

/-! ## Keys that tell apart -/

/-- Children with distinct keys are arranged in one way only. -/
theorem arrange_perm_eq {children children' : List Child} (hperm : children.Perm children')
    (hfolders : ((children.filterMap Child.folder?).map (·.1)).Nodup)
    (hrequests : ((children.filterMap Child.request?).map (·.1)).Nodup) :
    arrange children = arrange children' := by
  rw [arrange_eq, arrange_eq, inOrder, inOrder,
    sortedByKey_perm nameLE_trans nameLE_total nameLE_antisymm (hperm.filterMap _) hfolders,
    sortedByKey_perm Rank.le_trans Rank.le_total Rank.le_antisymm (hperm.filterMap _) hrequests]

/-! ## Trees in the order of their children -/

variable {o : Options} {ts ts' : List (FileTree (Option Request))}

/-- What the place of a file depends on. -/
def rankOf : FileTree (Option Request) → Rank
  | .file name _ content => ⟨content.bind (·.metadata.seq), name⟩
  | .folder name _ _ _ => ⟨none, name⟩

@[simp] theorem name_rankOf (t : FileTree (Option Request)) : (rankOf t).name = t.name := by
  cases t <;> rfl

def isFolder : FileTree (Option Request) → Bool
  | .folder _ _ _ _ => true
  | .file _ _ _ => false

/-- Whether a tree is a file with a request. -/
def isRequest : FileTree (Option Request) → Bool
  | .file _ _ (some _) => true
  | _ => false

theorem names_folders (ts : List (FileTree (Option Request))) :
    (ts.filter isFolder).map FileTree.name = folderNames ts := by
  induction ts with
  | nil => rfl
  | cons t ts ih =>
    rcases t with ⟨name, path, content⟩ | ⟨name, path, shown, children⟩
    · exact ih
    · exact congrArg (name :: ·) ih

theorem names_requests (ts : List (FileTree (Option Request))) :
    ((ts.filter isRequest).map FileTree.name).Sublist (fileNames ts) := by
  induction ts with
  | nil => exact .slnil
  | cons t ts ih =>
    rcases t with ⟨name, path, _ | r⟩ | ⟨name, path, shown, children⟩
    · exact ih.cons name
    · exact ih.cons_cons name
    · exact ih

/-- The computation for a folder or a file with a request. -/
def buildOf (o : Options) (t : FileTree (Option Request)) : Building Yield :=
  (child o t).build?.getD (return .empty)

/-- The folders among trees, as they are arranged. -/
def foldersInOrder (ts : List (FileTree (Option Request))) : List (FileTree (Option Request)) :=
  (ts.filter isFolder).mergeSort fun t u => nameLE t.name u.name

/-- The files with a request among trees, as they are arranged. -/
def requestsInOrder (ts : List (FileTree (Option Request))) : List (FileTree (Option Request)) :=
  (ts.filter isRequest).mergeSort fun t u => (rankOf t).le (rankOf u)

theorem folders_childList (o : Options) (ts : List (FileTree (Option Request))) :
    (childList o ts).filterMap Child.folder? =
      (ts.filter isFolder).map fun t => (t.name, buildOf o t) := by
  induction ts with
  | nil => rfl
  | cons t ts ih =>
    rcases t with ⟨name, path, _ | r⟩ | ⟨name, path, shown, children⟩
    · exact ih
    · exact ih
    · exact congrArg (_ :: ·) ih

theorem requests_childList (o : Options) (ts : List (FileTree (Option Request))) :
    (childList o ts).filterMap Child.request? =
      (ts.filter isRequest).map fun t => (rankOf t, buildOf o t) := by
  induction ts with
  | nil => rfl
  | cons t ts ih =>
    rcases t with ⟨name, path, _ | r⟩ | ⟨name, path, shown, children⟩
    · exact ih
    · exact congrArg (_ :: ·) ih
    · exact ih

/-- The computations are arranged as the trees are. -/
theorem arrange_childList (o : Options) (ts : List (FileTree (Option Request))) :
    arrange (childList o ts) = (foldersInOrder ts ++ requestsInOrder ts).map (buildOf o) := by
  rw [arrange_eq, inOrder, folders_childList, requests_childList, sortedByKey_map, sortedByKey_map,
    List.map_append]
  rfl

/-! ## Another order of the trees -/

/-- Distinct siblings are arranged in one way only. -/
theorem arrange_childList_eq (hdistinct : Distinct ts)
    (hperm : (childList o ts).Perm (childList o ts')) :
    arrange (childList o ts) = arrange (childList o ts') := by
  refine arrange_perm_eq hperm ?_ ?_
  · rw [folders_childList, List.map_map]
    exact names_folders ts ▸ hdistinct.folders
  · have hnames : ((ts.filter isRequest).map rankOf).map Rank.name =
        (ts.filter isRequest).map FileTree.name := by
      rw [List.map_map]
      exact List.map_congr_left fun t _ => name_rankOf t
    rw [requests_childList, List.map_map]
    refine .of_map Rank.name ?_
    exact hnames ▸ (names_requests ts).nodup hdistinct.files

/-- The children are the same when trees are given in another order, at any depth. -/
theorem childList_rearranged (h : Rearranged ts ts') (hdistinct : Distinct ts) :
    (childList o ts).Perm (childList o ts') := by
  induction h with
  | nil => exact .nil
  | file name path content _ ih => exact (ih hdistinct.tail).cons _
  | @folder name path shown children children' ts ts' _ _ ihinside ih =>
    have hinside : Distinct children := hdistinct.inside _ List.mem_cons_self
    have hfolder : child o (.folder name path shown children) =
        child o (.folder name path shown children') := by
      rw [child, child, arrange_childList_eq hinside (ihinside hinside)]
      rcases shown with _ | shown <;> rfl
    rw [childList, childList, hfolder]
    exact (ih hdistinct.tail).cons _
  | swap t u ts => exact .swap _ _ _
  | trans first _ ihfirst ihsecond =>
    exact (ihfirst hdistinct).trans (ihsecond (hdistinct.rearranged first))

/-! ## The order of items -/

/-- The code points of a name. -/
def codePoints (name : String) : List Nat := name.toList.map Char.toNat

/-- Names are compared code point by code point. -/
def NameBefore (a b : String) : Prop := codePoints a < codePoints b

/-- Requests with a number come before those without, smaller numbers first, and requests with the
same number or without one by the name of the file. -/
inductive RankBefore : Rank → Rank → Prop
  | smaller {m n : Int} (a b : String) (lt : m < n) : RankBefore ⟨some m, a⟩ ⟨some n, b⟩
  | numbered (m : Int) (a b : String) : RankBefore ⟨some m, a⟩ ⟨none, b⟩
  | named (seq : Option Int) {a b : String} (before : NameBefore a b) :
      RankBefore ⟨seq, a⟩ ⟨seq, b⟩

mutual

/-- The items that a folder or a file with a request gives. -/
inductive Gives (o : Options) : FileTree (Option Request) → List Item → Prop
  | accepted (name path : String) {r : Request} {content : Json} (request : Accepted o r content) :
      Gives o (.file name path (some r)) [.request content]
  | rejected (name path : String) {r : Request} {rejection : Rejection}
      (request : Rejected o r rejection) : Gives o (.file name path (some r)) []
  | folder (name path : String) (shown : Option String) {children : List (FileTree (Option Request))}
      {items : List Item} (inside : Canonical o children items) (ne_nil : items ≠ []) :
      Gives o (.folder name path shown children)
        [.folder (FileTree.folder name path shown children).shownName items]
  | bare (name path : String) (shown : Option String) {children : List (FileTree (Option Request))}
      (inside : Canonical o children []) : Gives o (.folder name path shown children) []

/-- The items of trees in one folder: those of the folders first, by name, and then those of the
files with a request, by rank. -/
inductive Canonical (o : Options) : List (FileTree (Option Request)) → List Item → Prop
  | intro {ts folders files : List (FileTree (Option Request))}
      (given : FileTree (Option Request) → List Item)
      (folders_of : folders.Perm (ts.filter isFolder))
      (folders_order : folders.Pairwise fun t u => NameBefore t.name u.name)
      (files_of : files.Perm (ts.filter isRequest))
      (files_order : files.Pairwise fun t u => RankBefore (rankOf t) (rankOf u))
      (gives : ∀ t ∈ folders ++ files, Gives o t (given t)) :
      Canonical o ts ((folders ++ files).flatMap given)

end

/-! ## What is built is in order -/

theorem nameBefore_of_le {a b : String} (hle : nameLE a b = true) (hne : a ≠ b) :
    NameBefore a b := by
  have hlt : a < b := by
    by_contra hnot
    exact hne (String.le_antisymm (of_decide_eq_true hle) (String.not_lt.1 hnot))
  exact List.map_lt (fun _ _ h => h) (String.lt_iff.1 hlt)

theorem rankBefore_of_le {a b : Rank} (hle : a.le b = true) (hne : a.name ≠ b.name) :
    RankBefore a b := by
  have hname : decide (a.name ≤ b.name) = true → NameBefore a.name b.name :=
    fun h => nameBefore_of_le h hne
  rcases a with ⟨_ | m, a⟩ <;> rcases b with ⟨_ | n, b⟩ <;>
    simp only [Rank.le, Bool.or_eq_true, Bool.and_eq_true, decide_eq_true_iff, reduceCtorEq]
      at hle hname
  · exact .named none (hname hle)
  · exact .numbered m a b
  · rcases hle with hlt | ⟨rfl, hle⟩
    · exact .smaller a b hlt
    · exact .named (some m) (hname hle)

/-- What the computation ends in. -/
def resultOf (o : Options) (t : FileTree (Option Request)) : Except BuildFault Yield :=
  ((buildOf o t).run.run []).run.1

/-- The items that are built for a tree, if there is no fault. -/
def itemsOf (o : Options) (t : FileTree (Option Request)) : List Item :=
  match resultOf o t with
  | .ok y => y.items
  | .error _ => []

theorem buildOf_ends (o : Options) (t : FileTree (Option Request)) :
    Ends (buildOf o t) (resultOf o t) := by
  have hends : ∃ result, Ends (buildOf o t) result := by
    obtain ⟨results, hends, -⟩ := ends_builds o [t]
    rw [builds, childList, childList] at hends
    rw [buildOf]
    rcases hbuild : (child o t).build? with _ | build
    · exact ⟨_, .pure _⟩
    · rw [List.filterMap_cons_some hbuild] at hends
      cases hends with
      | cons hbuilt _ => exact ⟨_, hbuilt⟩
  obtain ⟨result, hresult⟩ := hends
  have heq : resultOf o t = result := hresult []
  exact heq ▸ hresult

theorem itemsOf_eq {t : FileTree (Option Request)} {y : Yield} (h : resultOf o t = .ok y) :
    itemsOf o t = y.items := by
  rw [itemsOf, h]

/-- A run without a fault gives what each computation gives. -/
theorem items_of_joinAll {y : Yield} (h : joinAll (ts.map (resultOf o)) = .ok y) :
    (∀ t ∈ ts, ∃ yt, resultOf o t = .ok yt) ∧ y.items = ts.flatMap (itemsOf o) := by
  induction ts generalizing y with
  | nil =>
    cases h
    exact ⟨by simp, rfl⟩
  | cons t ts ih =>
    rw [List.map_cons, joinAll] at h
    obtain ⟨first, hfirst, h⟩ := bind_eq_ok.1 h
    obtain ⟨others, hothers, h⟩ := bind_eq_ok.1 h
    cases h
    obtain ⟨hall, hitems⟩ := ih hothers
    refine ⟨List.forall_mem_cons.2 ⟨⟨first, hfirst⟩, hall⟩, ?_⟩
    rw [List.flatMap_cons, itemsOf_eq hfirst, ← hitems]
    rfl

/-- Folders are arranged by their names. -/
theorem foldersInOrder_pairwise (h : Distinct ts) :
    (foldersInOrder ts).Pairwise fun t u => NameBefore t.name u.name := by
  refine pairwise_mergeSort_of_nodup nameLE_trans nameLE_total FileTree.name FileTree.name ?_
    fun _ _ => nameBefore_of_le
  rw [names_folders]
  exact h.folders

/-- Files with a request are arranged by their ranks. -/
theorem requestsInOrder_pairwise (h : Distinct ts) :
    (requestsInOrder ts).Pairwise fun t u => RankBefore (rankOf t) (rankOf u) := by
  refine pairwise_mergeSort_of_nodup Rank.le_trans Rank.le_total rankOf FileTree.name
    ((names_requests ts).nodup h.files) fun t u hle hne => rankBefore_of_le hle ?_
  rwa [name_rankOf, name_rankOf]

/-- A folder without a fault gives the items that are in it. -/
theorem gives_folder {name path : String} {shown : Option String}
    {children : List (FileTree (Option Request))} {y : Yield}
    (h : resultOf o (.folder name path shown children) = .ok y)
    (hinside : ∀ inner, Ends (runAll (arrange (childList o children))) (.ok inner) →
      Canonical o children inner.items) :
    Gives o (.folder name path shown children) y.items := by
  obtain ⟨results, hends, -⟩ := ends_builds o children
  obtain ⟨results', -, hrun⟩ := runAll_arrange_ends hends
  have hfolder : Ends (buildOf o (.folder name path shown children))
      ((joinAll results').map
        (Yield.inFolder (FileTree.folder name path shown children).shownName)) :=
    inFolder_ends _ hrun
  have hresult := (buildOf_ends o (.folder name path shown children)).unique hfolder
  rw [h] at hresult
  obtain ⟨inner, hinner, rfl⟩ := map_eq_ok.1 hresult.symm
  rw [hinner] at hrun
  have hitems := hinside inner hrun
  rw [Yield.inFolder]
  rcases hinnerItems : inner.items with _ | ⟨item, items⟩
  · rw [hinnerItems] at hitems
    exact .bare name path shown hitems
  · rw [hinnerItems] at hitems
    exact .folder name path shown hitems (List.cons_ne_nil _ _)

/-- A request without a fault is accepted or left out. -/
theorem gives_request {name path : String} {r : Request} {y : Yield}
    (h : resultOf o (.file name path (some r)) = .ok y) :
    Gives o (.file name path (some r)) y.items := by
  have hresult := (buildOf_ends o (.file name path (some r))).unique (buildRequest_ends o path r)
  rw [h] at hresult
  rcases yieldOf_cases hresult.symm with ⟨content, haccepted, hitems, -⟩ |
    ⟨rejection, hrejected, -, hitems, -⟩
  · exact hitems ▸ .accepted name path haccepted
  · exact hitems ▸ .rejected name path hrejected

/-- What is built of trees is in order, at every level. -/
theorem canonical_of_ends (hdistinct : Distinct ts) {y : Yield}
    (h : Ends (runAll (arrange (childList o ts))) (.ok y)) : Canonical o ts y.items := by
  induction hdistinct generalizing y with
  | @intro ts folders files inside ih =>
    have hdistinct : Distinct ts := ⟨folders, files, inside⟩
    have hrun : Ends (runAll (arrange (childList o ts)))
        (joinAll ((foldersInOrder ts ++ requestsInOrder ts).map (resultOf o))) := by
      rw [arrange_childList]
      refine runAll_ends ?_
      rw [List.forall₂_map_left_iff, List.forall₂_map_right_iff, List.forall₂_same]
      exact fun t _ => buildOf_ends o t
    obtain ⟨hall, hitems⟩ := items_of_joinAll (hrun.unique h)
    have hfolders : (foldersInOrder ts).Perm (ts.filter isFolder) := List.mergeSort_perm _ _
    have hrequests : (requestsInOrder ts).Perm (ts.filter isRequest) := List.mergeSort_perm _ _
    rw [hitems]
    refine .intro (itemsOf o) hfolders (foldersInOrder_pairwise hdistinct) hrequests
      (requestsInOrder_pairwise hdistinct) fun t ht => ?_
    obtain ⟨yt, hyt⟩ := hall t ht
    rw [itemsOf_eq hyt]
    rcases List.mem_append.1 ht with ht | ht
    · obtain ⟨hmem, hkind⟩ := List.mem_filter.1 (hfolders.mem_iff.1 ht)
      rcases t with ⟨name, path, content⟩ | ⟨name, path, shown, children⟩
      · cases hkind
      · exact gives_folder hyt fun inner => ih _ hmem
    · obtain ⟨-, hkind⟩ := List.mem_filter.1 (hrequests.mem_iff.1 ht)
      rcases t with ⟨name, path, _ | r⟩ | ⟨name, path, shown, children⟩
      · cases hkind
      · exact gives_request hyt
      · cases hkind

/-- When the trees in a folder are given in another order, in any folder, the same is built: the same
items, warnings and failures, or the same fault.  What is built is in order at every level. -/
theorem buildTree_canonical (o : Options) {tree tree' : FileTree (Option Request)}
    (hdistinct : Distinct tree.children) (hrearranged : Rearranged tree.children tree'.children) :
    buildTree o tree = buildTree o tree' ∧
    ∀ entries y reported, ((buildTree o tree).run.run entries).run = (.ok y, reported) →
      Canonical o tree.children y.items := by
  constructor
  · rw [buildTree_eq, buildTree_eq,
      arrange_childList_eq hdistinct (childList_rearranged hrearranged hdistinct)]
  · intro entries y reported hrun
    obtain ⟨results, hends, -⟩ := ends_builds o tree.children
    obtain ⟨results', -, hall⟩ := runAll_arrange_ends hends
    rw [buildTree_eq] at hrun
    have hresult := hall entries
    rw [hrun] at hresult
    rw [← hresult] at hall
    exact canonical_of_ends hdistinct hall

/-- A file with a request that has a number, or has none. -/
def rankedFile (name : String) (seq : Option Int) : FileTree (Option Request) :=
  .file name name (some { pingRequest name with metadata := ⟨name, "http", seq⟩ })

/-- A tree in which neither the folders nor the files of a folder are given in order.  The names under
which the folders are shown are in the opposite order. -/
def shuffledTree : FileTree (Option Request) :=
  .folder "api" "api" none [
    .folder "users" "users" (some "Accounts")
      [rankedFile "add.bru" (some 0), rankedFile "get.bru" (some (-1))],
    .folder "admin" "admin" (some "Zone") [rankedFile "x.bru" none],
    rankedFile "a.bru" none,
    rankedFile "b.bru" (some 2)]

/-- The same tree in order. -/
def sortedTree : FileTree (Option Request) :=
  .folder "api" "api" none [
    .folder "admin" "admin" (some "Zone") [rankedFile "x.bru" none],
    .folder "users" "users" (some "Accounts")
      [rankedFile "get.bru" (some (-1)), rankedFile "add.bru" (some 0)],
    rankedFile "b.bru" (some 2),
    rankedFile "a.bru" none]

theorem distinct_shuffledTree : Distinct shuffledTree.children :=
  .folder _ _ (by decide) (.file _ _ (by decide) (.file _ _ (by decide) .nil)) <|
    .folder _ _ (by decide) (.file _ _ (by decide) .nil) <|
    .file _ _ (by decide) (.file _ _ (by decide) .nil)

theorem rearranged_shuffledTree : Rearranged shuffledTree.children sortedTree.children :=
  (Rearranged.swap _ _ _).trans <|
    .cons _ <| .folder _ _ _ (.swap _ _ []) (.swap _ _ [])

/-- Options that reject what the format does not allow. -/
def checkedOptions : Options := ⟨.textual, validateItem, true⟩

theorem buildTree_canonical_shuffled :
    buildTree checkedOptions shuffledTree = buildTree checkedOptions sortedTree ∧
    ∃ y reported, ((buildTree checkedOptions shuffledTree).run.run []).run = (.ok y, reported) ∧
      Canonical checkedOptions shuffledTree.children y.items := by
  have haddress : ∀ f ∈ shuffledTree.files, ∀ r, f.content = some r →
      r.url.toList = "\x7b\x7bhost\x7d\x7d/ping".toList := by
    have hfiles : shuffledTree.files.map (·.content.map (·.url)) =
        List.replicate 5 (some "\x7b\x7bhost\x7d\x7d/ping") := rfl
    intro f hf r hr
    have hmem := List.mem_map_of_mem (f := fun f => f.content.map (·.url)) hf
    rw [hfiles, List.mem_replicate, hr] at hmem
    exact congrArg String.toList (Option.some.inj hmem.2)
  have hurl : Url.ofText "\x7b\x7bhost\x7d\x7d/ping".toList =
      .ok (Url.splitPlainly "\x7b\x7bhost\x7d\x7d/ping".toList) := by decide +kernel
  obtain ⟨heq, hcanonical⟩ :=
    buildTree_canonical checkedOptions distinct_shuffledTree rearranged_shuffledTree
  refine ⟨heq, ?_⟩
  rcases buildTree_cases checkedOptions shuffledTree with
    ⟨y, -, -, hends, -⟩ | ⟨fault, -, f, hf, r, hr, hyield⟩
  · have hrun : ((buildTree checkedOptions shuffledTree).run.run []).run = (.ok y, _) :=
      Prod.ext (hends []) rfl
    exact ⟨y, _, hrun, hcanonical [] y _ hrun⟩
  · obtain ⟨hleave, -⟩ := yieldOf_eq_error ((haddress f hf r hr).symm ▸ hurl) hyield
    cases hleave

end Courier.Collection
