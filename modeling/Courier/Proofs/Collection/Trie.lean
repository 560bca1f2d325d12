import Courier.Proofs.Collection.Layout
import Courier.Proofs.Collection.Order
import Courier.Proofs.Collection.Siblings
import Mathlib.Tactic.Common

/-!
# A tree of paths is a trie

`locatedIn` reads trees as a list of files, each with the names on the way to it.  Adding a file to
trees adds one entry to that list, keeps siblings distinct, and leaves no folder without a file
(`Adds`).  A folder may be found again after others have been added, so this is shown of adding to
any such trees.

* `adds_insert` follows the way of the file that is added.
* `located_ofPaths` is induction on the files.
* `Disk.fileTree_faithful` is about paths below a directory.
-/

namespace Courier

open Path (IsName pathTo)

/-- The same file in one more folder. -/
def Located.below (name : String) (l : Located) : Located := { l with way := name :: l.way }

namespace FileTree

variable {α : Type}

/-! ## Files with the ways to them -/

mutual

/-- The files of a tree, each with the names on the way to it. -/
def located : FileTree α → List Located
  | .file name path _ => [⟨[name], path⟩]
  | .folder name _ _ children => (locatedIn children).map (Located.below name)

/-- The files of trees, each with the names on the way to it. -/
def locatedIn : List (FileTree α) → List Located
  | [] => []
  | t :: ts => located t ++ locatedIn ts

end

/-- The ways to the files of trees. -/
def waysIn (ts : List (FileTree α)) : List (List String) := (locatedIn ts).map (·.way)

/-- Every folder, at any depth, has a file in it or below. -/
inductive Occupied : List (FileTree α) → Prop
  | nil : Occupied []
  | file (name path : String) (content : α) {ts : List (FileTree α)} (rest : Occupied ts) :
      Occupied (.file name path content :: ts)
  | folder (name path : String) (shown : Option String) {children ts : List (FileTree α)}
      (ne_nil : locatedIn children ≠ []) (inside : Occupied children) (rest : Occupied ts) :
      Occupied (.folder name path shown children :: ts)

theorem locatedIn_append (ts ts' : List (FileTree α)) :
    locatedIn (ts ++ ts') = locatedIn ts ++ locatedIn ts' := by
  induction ts with
  | nil => rw [locatedIn, List.nil_append, List.nil_append]
  | cons t ts ih => rw [List.cons_append, locatedIn, locatedIn, ih, List.append_assoc]

theorem mem_waysIn_file {name path : String} {content : α} {ts : List (FileTree α)}
    {way : List String} :
    way ∈ waysIn (.file name path content :: ts) ↔ way = [name] ∨ way ∈ waysIn ts := by
  rw [waysIn, locatedIn, located, List.singleton_append, List.map_cons, List.mem_cons, waysIn]

/-- A way into a folder begins with its name. -/
theorem mem_waysIn_folder {name path : String} {shown : Option String}
    {children ts : List (FileTree α)} {way : List String} :
    way ∈ waysIn (.folder name path shown children :: ts) ↔
      (∃ rest ∈ waysIn children, way = name :: rest) ∨ way ∈ waysIn ts := by
  rw [waysIn, locatedIn, located, List.map_append, List.mem_append, List.map_map, waysIn, waysIn]
  simp [Located.below, eq_comm]

/-- The name of a file is a way to it. -/
theorem mem_waysIn_of_mem_fileNames {name : String} {ts : List (FileTree α)}
    (h : name ∈ fileNames ts) : [name] ∈ waysIn ts := by
  induction ts with
  | nil => cases h
  | cons t ts ih =>
    rcases t with ⟨name', path, content⟩ | ⟨name', path, shown, children⟩
    · rw [mem_waysIn_file]
      rcases List.mem_cons.1 h with rfl | h
      · exact .inl rfl
      · exact .inr (ih h)
    · exact mem_waysIn_folder.2 (.inr (ih h))

/-! ## Adding a file -/

/-- A change of trees that adds a file to which no way leads yet, and keeps the trees a trie. -/
def Adds (way : List String) (path : String)
    (change : List (FileTree Unit) → List (FileTree Unit)) : Prop :=
  ∀ ts, Distinct ts → Occupied ts → way ∉ waysIn ts →
    (locatedIn (change ts)).Perm (⟨way, path⟩ :: locatedIn ts) ∧ Distinct (change ts) ∧
      Occupied (change ts)

theorem Distinct.append_file {name : String} (path : String) (content : α) {ts : List (FileTree α)}
    (h : Distinct ts) (hfresh : name ∉ fileNames ts) :
    Distinct (ts ++ [.file name path content]) := by
  have hfolders : folderNames (ts ++ [.file name path content]) = folderNames ts := by
    rw [folderNames, List.filterMap_append]
    exact List.append_nil _
  have hfiles : fileNames (ts ++ [.file name path content]) = fileNames ts ++ [name] :=
    List.filterMap_append
  refine ⟨hfolders ▸ h.folders, ?_, ?_⟩
  · rw [hfiles, List.nodup_append_comm]
    exact h.files.cons hfresh
  · exact List.forall_mem_append.2 ⟨h.inside, List.forall_mem_singleton.2 .nil⟩

theorem Occupied.append_file (name path : String) (content : α) {ts : List (FileTree α)}
    (h : Occupied ts) : Occupied (ts ++ [.file name path content]) := by
  induction h with
  | nil => exact .file name path content .nil
  | file name' path' content' _ ih => exact .file name' path' content' ih
  | folder name' path' shown ne_nil inside _ _ ih => exact .folder name' path' shown ne_nil inside ih

theorem adds_append (name path : String) : Adds [name] path (· ++ [.file name path ()]) := by
  intro ts hdistinct hoccupied hfresh
  refine ⟨?_, hdistinct.append_file path () fun hmem => ?_, hoccupied.append_file name path ()⟩
  · rw [locatedIn_append, locatedIn, locatedIn, located, List.append_nil]
    exact List.perm_append_singleton _ _
  · exact hfresh (mem_waysIn_of_mem_fileNames hmem)

/-- Changing a folder leaves the names of the files beside it. -/
theorem fileNames_inFolder (name path : String) (label : Option String)
    (change : List (FileTree Unit) → List (FileTree Unit)) (ts : List (FileTree Unit)) :
    fileNames (inFolder name path label change ts) = fileNames ts := by
  induction ts with
  | nil => rfl
  | cons t ts ih =>
    rcases t with ⟨name', path', content⟩ | ⟨name', path', shown, children⟩
    · rw [inFolder, fileNames_file, fileNames_file, ih]
    · rw [inFolder]
      split
      · rfl
      · exact ih

/-- Changing a folder adds no name but its own. -/
theorem mem_folderNames_inFolder {name path : String} {label : Option String}
    {change : List (FileTree Unit) → List (FileTree Unit)} {ts : List (FileTree Unit)}
    {other : String} (h : other ∈ folderNames (inFolder name path label change ts)) :
    other = name ∨ other ∈ folderNames ts := by
  induction ts with
  | nil => exact .inl (List.mem_singleton.1 h)
  | cons t ts ih =>
    rcases t with ⟨name', path', content⟩ | ⟨name', path', shown, children⟩
    · exact ih h
    · rw [inFolder] at h
      split at h
      · exact .inr h
      · rcases List.mem_cons.1 h with rfl | h
        · exact .inr List.mem_cons_self
        · exact (ih h).imp_right (List.mem_cons_of_mem _)

/-- A file that is added in a folder is added in the folder around it. -/
theorem Adds.inFolder {name path : String} {way : List String}
    {change : List (FileTree Unit) → List (FileTree Unit)} (h : Adds way path change)
    (folderPath : String) (label : Option String) :
    Adds (name :: way) path (inFolder name folderPath label change) := by
  intro ts hdistinct hoccupied hfresh
  induction ts with
  | nil =>
    obtain ⟨hperm, hinside, hfull⟩ := h [] .nil .nil (by simp [waysIn, locatedIn])
    have hne : locatedIn (change []) ≠ [] := List.ne_nil_of_mem (hperm.mem_iff.2 List.mem_cons_self)
    refine ⟨?_, .folder _ _ (by simp [folderNames]) hinside .nil, .folder _ _ _ hne hfull .nil⟩
    simp only [FileTree.inFolder, locatedIn, located, List.append_nil]
    exact hperm.map (Located.below name)
  | cons t ts ih =>
    rcases t with ⟨name', path', content⟩ | ⟨name', path', shown, children⟩
    · rw [mem_waysIn_file, not_or] at hfresh
      cases hoccupied with
      | file _ _ _ hrest =>
        obtain ⟨hperm, hdistinct', hoccupied'⟩ := ih hdistinct.tail hrest hfresh.2
        refine ⟨?_, .file path' content ?_ hdistinct', .file _ _ _ hoccupied'⟩
        · rw [FileTree.inFolder, locatedIn, locatedIn]
          exact (hperm.append_left _).trans List.perm_middle
        · rw [fileNames_inFolder]
          exact (List.nodup_cons.1 hdistinct.files).1
    · rw [mem_waysIn_folder, not_or] at hfresh
      have hname : name' ∉ folderNames ts := (List.nodup_cons.1 hdistinct.folders).1
      have hchildren : Distinct children := hdistinct.inside _ List.mem_cons_self
      cases hoccupied with
      | folder _ _ _ hne hfull hrest =>
        rw [FileTree.inFolder]
        split
        · rename_i heq
          subst heq
          obtain ⟨hperm, hinside, hfull'⟩ := h children hchildren hfull
            fun hmem => hfresh.1 ⟨_, hmem, rfl⟩
          have hne' : locatedIn (change children) ≠ [] :=
            List.ne_nil_of_mem (hperm.mem_iff.2 List.mem_cons_self)
          refine ⟨?_, .folder _ _ hname hinside hdistinct.tail, .folder _ _ _ hne' hfull' hrest⟩
          rw [locatedIn, locatedIn, located, located]
          exact (hperm.map (Located.below name')).append_right _
        · rename_i hother
          obtain ⟨hperm, hdistinct', hoccupied'⟩ := ih hdistinct.tail hrest hfresh.2
          refine ⟨?_, .folder _ _ ?_ hchildren hdistinct', .folder _ _ _ hne hfull hoccupied'⟩
          · rw [locatedIn, locatedIn]
            exact (hperm.append_left _).trans List.perm_middle
          · intro hmem
            rcases mem_folderNames_inFolder hmem with heq | hmem
            · exact hother heq
            · exact hname hmem

/-- A file is added at the end of its way, whatever folders are there already. -/
theorem adds_insert (label : String → Option String) (path : String) {way : List String}
    (parent : String) (hway : way ≠ []) : Adds way path (insert label parent path way) := by
  induction way generalizing parent with
  | nil => exact absurd rfl hway
  | cons name way ih =>
    rcases way with _ | ⟨next, way⟩
    · exact adds_append name path
    · exact (ih (Path.under parent name) (List.cons_ne_nil _ _)).inFolder _ _

/-- The files of a tree of paths are these paths, siblings are distinct, and no folder is without a
file. -/
theorem located_ofPaths (label : String → Option String) (root : String) {files : List Located}
    (hways : ∀ l ∈ files, l.way ≠ []) (hnodup : (files.map (·.way)).Nodup) :
    (locatedIn (ofPaths label root files).children).Perm files ∧
      Distinct (ofPaths label root files).children ∧
      Occupied (ofPaths label root files).children := by
  -- The ways of the files that are left are distinct from those that have been added.
  suffices hfold : ∀ ts : List (FileTree Unit), Distinct ts → Occupied ts →
      (waysIn ts ++ files.map (·.way)).Nodup →
      let ts' := files.foldl (fun ts l => insert label root l.path l.way ts) ts
      (locatedIn ts').Perm (locatedIn ts ++ files) ∧ Distinct ts' ∧ Occupied ts' by
    have h := hfold [] .nil .nil hnodup
    simpa [ofPaths, children, locatedIn] using h
  clear hnodup
  induction files with
  | nil =>
    intro ts hdistinct hoccupied _
    exact ⟨by simp, hdistinct, hoccupied⟩
  | cons l files ih =>
    intro ts hdistinct hoccupied hnodup
    rw [List.forall_mem_cons] at hways
    have hfresh : l.way ∉ waysIn ts := fun hmem =>
      (List.disjoint_of_nodup_append hnodup) hmem List.mem_cons_self
    obtain ⟨hperm, hdistinct', hoccupied'⟩ :=
      adds_insert label l.path root hways.1 ts hdistinct hoccupied hfresh
    have hrest : (waysIn (insert label root l.path l.way ts) ++ files.map (·.way)).Nodup := by
      have hways' := (hperm.map (·.way)).append_right (files.map (·.way))
      exact (hways'.trans List.perm_middle.symm).nodup_iff.2 hnodup
    obtain ⟨hall, hdone⟩ := ih hways.2 _ hdistinct' hoccupied' hrest
    refine ⟨hall.trans ?_, hdone⟩
    exact (hperm.append_right files).trans List.perm_middle.symm

end FileTree

/-! ## Paths on a disk -/

open FileTree (Distinct Occupied locatedIn)

/-- Paths are sorted in one way only. -/
theorem Discovery.sorted_eq_of_perm {paths paths' : List String} (h : paths.Perm paths') :
    Discovery.sorted paths = Discovery.sorted paths' :=
  Collection.mergeSort_eq_of_perm Collection.nameLE_trans Collection.nameLE_total
    (fun a _ b _ => Collection.nameLE_antisymm a b) h

/-- The tree of the paths at the ends of distinct ways down from a directory: its files are these
paths, each once and with the names on the way to it; siblings are distinct; no folder is without a
file below it; and the order of the paths does not matter. -/
theorem Disk.fileTree_faithful (d : Disk) (root : String) {ways : List (List String)}
    {paths : List String} (hways : ∀ way ∈ ways, way ≠ [] ∧ ∀ name ∈ way, IsName name)
    (hnodup : ways.Nodup) (hpaths : paths.Perm (ways.map (pathTo root))) :
    (locatedIn (d.fileTree root paths).children).Perm
        (ways.map fun way => ⟨way, pathTo root way⟩) ∧
      Distinct (d.fileTree root paths).children ∧ Occupied (d.fileTree root paths).children ∧
      ∀ paths', paths'.Perm paths → d.fileTree root paths' = d.fileTree root paths := by
  have hlocated := d.locateAll_perm hways hpaths
  have hne : ∀ l ∈ d.locateAll root paths, l.way ≠ [] := by
    intro l hl
    obtain ⟨way, hway, rfl⟩ := List.mem_map.1 (hlocated.mem_iff.1 hl)
    exact (hways way hway).1
  have hdistinct : ((d.locateAll root paths).map (·.way)).Nodup := by
    have hmap := hlocated.map (·.way)
    rw [List.map_map] at hmap
    refine hmap.nodup_iff.2 ?_
    rwa [Function.comp_def, List.map_id']
  obtain ⟨hperm, hsiblings, hoccupied⟩ :=
    FileTree.located_ofPaths d.folderLabel? root hne hdistinct
  refine ⟨hperm.trans hlocated, hsiblings, hoccupied, fun paths' hpaths' => ?_⟩
  rw [Disk.fileTree, Disk.fileTree, Disk.locateAll, Disk.locateAll,
    Discovery.sorted_eq_of_perm hpaths']

/-- Ways into a folder, with a way into another folder between them. -/
def interleavedWays : List (List String) := [["a", "x"], ["a-b", "x"], ["a", "b", "x"]]

/-- A disk on which there are no documents. -/
def emptyDisk : Disk where
  root := .directory []
  cwd := ["home"]

theorem Disk.fileTree_faithful_interleaved :
    (locatedIn (emptyDisk.fileTree "" ["a/x", "a-b/x", "a/b/x"]).children).Perm
        [⟨["a", "x"], "a/x"⟩, ⟨["a-b", "x"], "a-b/x"⟩, ⟨["a", "b", "x"], "a/b/x"⟩] ∧
      Distinct (emptyDisk.fileTree "" ["a/x", "a-b/x", "a/b/x"]).children ∧
      Occupied (emptyDisk.fileTree "" ["a/x", "a-b/x", "a/b/x"]).children ∧
      emptyDisk.fileTree "" ["a-b/x", "a/b/x", "a/x"] =
        emptyDisk.fileTree "" ["a/x", "a-b/x", "a/b/x"] := by
  have hways : ∀ way ∈ interleavedWays, way ≠ [] ∧ ∀ name ∈ way, IsName name := by decide
  have hpaths : ["a/x", "a-b/x", "a/b/x"].Perm (interleavedWays.map (pathTo "")) := by decide
  obtain ⟨hfiles, hdistinct, hoccupied, hsame⟩ :=
    emptyDisk.fileTree_faithful "" hways (by decide) hpaths
  exact ⟨hfiles, hdistinct, hoccupied, hsame _ (by decide)⟩

end Courier
