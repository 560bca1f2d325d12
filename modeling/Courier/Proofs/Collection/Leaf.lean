import Courier.Collection.Tree
import Mathlib.Data.List.Basic
import Mathlib.Tactic.Common

/-!
# Leaves

A collection and a tree of files are looked at in the same way: as a list of leaves, each below the
names of the folders around it.

* `leavesIn` lists the leaves of items, and `leavesOfItems` those of items that are given as JSON,
  where an object with the member `item` is a folder.  `leavesOfCollection_collectionJson` says that
  the two views agree.
* `FileTree.filesIn` lists the files of trees.  Further folders around the trees change nothing but
  the names around the files (`FileTree.filesIn_eq_map`).

`Item.Filled` says that a folder and every folder in it hold something.  Of such items, there are
none when there is no leaf (`eq_nil_of_leavesIn`).
-/

namespace Courier

namespace Collection

/-- A request of a collection with the names of the folders around it, the outermost first. -/
structure Leaf where
  folders : List String
  item : Json
  deriving Repr

/-! ## Leaves of items -/

mutual

/-- The leaves of an item that stands in some folders. -/
def Item.leaves (folders : List String) : Item → List Leaf
  | .request content => [⟨folders, content⟩]
  | .folder name items => leavesIn (folders ++ [name]) items

/-- The leaves of items that stand in some folders. -/
def leavesIn (folders : List String) : List Item → List Leaf
  | [] => []
  | item :: items => item.leaves folders ++ leavesIn folders items

end

/-- No folder is empty, neither this one nor one in it. -/
inductive Item.Filled : Item → Prop
  | request (content : Json) : Filled (.request content)
  | folder (name : String) {items : List Item} (ne_nil : items ≠ [])
      (items_filled : ∀ item ∈ items, Filled item) : Filled (.folder name items)

theorem leavesIn_eq_flatMap (folders : List String) (items : List Item) :
    leavesIn folders items = items.flatMap (Item.leaves folders) := by
  induction items with
  | nil => rw [leavesIn, List.flatMap_nil]
  | cons item items ih => rw [leavesIn, List.flatMap_cons, ih]

theorem leavesIn_perm {items items' : List Item} (folders : List String) (h : items.Perm items') :
    (leavesIn folders items).Perm (leavesIn folders items') := by
  rw [leavesIn_eq_flatMap, leavesIn_eq_flatMap]
  exact h.flatMap_right _

theorem Item.Filled.leaves_ne_nil {item : Item} (h : item.Filled) (folders : List String) :
    item.leaves folders ≠ [] := by
  induction h generalizing folders with
  | request content =>
    rw [Item.leaves]
    exact List.cons_ne_nil _ _
  | folder name ne_nil _ ih =>
    obtain ⟨item, hitem⟩ := List.exists_mem_of_ne_nil _ ne_nil
    rw [Item.leaves, leavesIn_eq_flatMap]
    intro hnil
    exact ih item hitem _ (List.flatMap_eq_nil_iff.1 hnil item hitem)

theorem eq_nil_of_leavesIn {items : List Item} {folders : List String}
    (h : ∀ item ∈ items, item.Filled) (hnil : leavesIn folders items = []) : items = [] := by
  refine List.eq_nil_iff_forall_not_mem.2 fun item hitem => ?_
  rw [leavesIn_eq_flatMap] at hnil
  exact (h item hitem).leaves_ne_nil folders (List.flatMap_eq_nil_iff.1 hnil item hitem)

/-! ## Leaves of JSON -/

/-- The name of an object. -/
def nameOf (members : List (String × Json)) : String :=
  match members.lookup "name" with
  | some (.string name) => name
  | _ => ""

mutual

/-- The leaves of an item that stands in some folders. -/
def leavesOfItem (folders : List String) : Json → List Leaf
  | .object members =>
    if (members.lookup "item").isSome then leavesOfMembers (folders ++ [nameOf members]) members
    else [⟨folders, .object members⟩]
  | _ => []

/-- The leaves of the items of a folder with these members. -/
def leavesOfMembers (folders : List String) : List (String × Json) → List Leaf
  | [] => []
  | (key, value) :: members =>
    (if key = "item" then leavesOfList folders value else []) ++ leavesOfMembers folders members

def leavesOfList (folders : List String) : Json → List Leaf
  | .array items => leavesOfItems folders items
  | _ => []

def leavesOfItems (folders : List String) : List Json → List Leaf
  | [] => []
  | item :: items => leavesOfItem folders item ++ leavesOfItems folders items

end

/-- The leaves of a collection. -/
def leavesOfCollection (collection : Json) : List Leaf :=
  match collection.get? "item" with
  | some items => leavesOfList [] items
  | none => []

/-- An object that is no folder. -/
def IsRequest (content : Json) : Prop :=
  ∃ members, content = .object members ∧ members.lookup "item" = none

theorem IsRequest.leavesOfItem {content : Json} (h : IsRequest content) (folders : List String) :
    leavesOfItem folders content = [⟨folders, content⟩] := by
  obtain ⟨members, rfl, hitem⟩ := h
  rw [Collection.leavesOfItem, hitem]
  rfl

mutual

theorem leavesOfItem_toJson (folders : List String) :
    ∀ item : Item, (∀ leaf ∈ item.leaves folders, IsRequest leaf.item) →
      leavesOfItem folders item.toJson = item.leaves folders
  | .request content, h => by
    rw [Item.leaves] at h ⊢
    rw [Item.toJson]
    exact (h _ List.mem_cons_self).leavesOfItem folders
  | .folder name items, h => by
    rw [Item.leaves] at h ⊢
    rw [Item.toJson, leavesOfItem]
    have hitems := leavesOfItems_itemsJson (folders ++ [name]) items h
    simp [List.lookup_cons, leavesOfMembers, leavesOfList, nameOf, hitems]

theorem leavesOfItems_itemsJson (folders : List String) :
    ∀ items : List Item, (∀ leaf ∈ leavesIn folders items, IsRequest leaf.item) →
      leavesOfItems folders (itemsJson items) = leavesIn folders items
  | [], _ => by rw [itemsJson, leavesOfItems, leavesIn]
  | item :: items, h => by
    rw [leavesIn] at h ⊢
    rw [itemsJson, leavesOfItems,
      leavesOfItem_toJson folders item fun leaf hleaf => h leaf (List.mem_append_left _ hleaf),
      leavesOfItems_itemsJson folders items fun leaf hleaf =>
        h leaf (List.mem_append_right _ hleaf)]

end

theorem leavesOfCollection_collectionJson {title : Json} {items : List Item}
    (h : ∀ leaf ∈ leavesIn [] items, IsRequest leaf.item) :
    leavesOfCollection (collectionJson title (itemsJson items)) = leavesIn [] items := by
  rw [← leavesOfItems_itemsJson [] items h]
  simp [leavesOfCollection, collectionJson, Json.get?, List.lookup_cons, leavesOfList]

end Collection

/-! ## Files of trees -/

namespace FileTree

variable {α : Type}

/-- A file of a tree with the names of the folders around it, the outermost first. -/
structure Placed (α : Type) where
  folders : List String
  path : String
  content : α
  deriving Repr

/-- The same file in further folders. -/
def Placed.within (folders : List String) (f : Placed α) : Placed α :=
  { f with folders := folders ++ f.folders }

mutual

/-- The files of a tree that stands in some folders. -/
def filesAt (folders : List String) : FileTree α → List (Placed α)
  | .file _ path content => [⟨folders, path, content⟩]
  | .folder name path shown children =>
    filesIn (folders ++ [(FileTree.folder name path shown children).shownName]) children

/-- The files of trees that stand in some folders. -/
def filesIn (folders : List String) : List (FileTree α) → List (Placed α)
  | [] => []
  | t :: ts => filesAt folders t ++ filesIn folders ts

end

/-- The trees in a folder.  A file has none. -/
def children : FileTree α → List (FileTree α)
  | .file _ _ _ => []
  | .folder _ _ _ children => children

/-- The files below the root of a tree. -/
def files (tree : FileTree α) : List (Placed α) := filesIn [] tree.children

mutual

theorem filesAt_eq_map (folders : List String) :
    ∀ t : FileTree α, filesAt folders t = (filesAt [] t).map (Placed.within folders)
  | .file _ _ _ => by
    rw [filesAt, filesAt, List.map_singleton, Placed.within, List.append_nil]
  | .folder name path shown children => by
    rw [filesAt, filesAt, filesIn_eq_map _ children, filesIn_eq_map ([] ++ _) children,
      List.map_map]
    refine List.map_congr_left fun f _ => ?_
    simp [Placed.within]

/-- Further folders around trees only come first in what is around their files. -/
theorem filesIn_eq_map (folders : List String) :
    ∀ ts : List (FileTree α), filesIn folders ts = (filesIn [] ts).map (Placed.within folders)
  | [] => by rw [filesIn, filesIn, List.map_nil]
  | t :: ts => by
    rw [filesIn, filesIn, filesAt_eq_map folders t, filesIn_eq_map folders ts, List.map_append]

end

theorem filesIn_append (folders : List String) (ts ts' : List (FileTree α)) :
    filesIn folders (ts ++ ts') = filesIn folders ts ++ filesIn folders ts' := by
  induction ts with
  | nil => rw [filesIn, List.nil_append, List.nil_append]
  | cons t ts ih => rw [List.cons_append, filesIn, filesIn, ih, List.append_assoc]

end FileTree

end Courier
