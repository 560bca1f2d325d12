import Courier.Collection.Layout
import Courier.Proofs.Collection.Leaf
import Courier.Proofs.Files.Discovery
import Mathlib.Data.List.Perm.Basic
import Mathlib.Tactic.Common

/-!
# Arranged paths

Arranging paths in a tree loses none and adds none: the files of the tree are the paths, each in the
folders on the way to it (`files_ofPaths`).  `Laid` is what adding a file relies on and keeps: the
path and the label of a folder belong to the place where it stands.
-/

namespace Courier

open Discovery (IsWay)
open Path (pathTo)

namespace FileTree

/-! ## Folders on a way -/

/-- The name under which a folder is shown, from its own name and its label. -/
def shownAs (name : String) (label : Option String) : String := (label.filter (· ≠ "")).getD name

theorem shownName_folder {α : Type} (name path : String) (label : Option String)
    (children : List (FileTree α)) :
    (FileTree.folder name path label children).shownName = shownAs name label := by
  rcases label with _ | label
  · rfl
  · by_cases h : label = "" <;> simp [shownName, shownAs, Option.filter, h]

/-- The names under which the folders on a way are shown. -/
def shownOn (label : String → Option String) (parent : String) : List String → List String
  | [] => []
  | name :: way =>
    let path := Path.under parent name
    shownAs name (label path) :: shownOn label path way

/-! ## Adding a file -/

variable {label : String → Option String} {parent : String}

/-- Every folder has the path and the label that belong to its place. -/
inductive Laid (label : String → Option String) : String → List (FileTree Unit) → Prop
  | nil {parent : String} : Laid label parent []
  | file {parent : String} (name path : String) {ts : List (FileTree Unit)}
      (rest : Laid label parent ts) : Laid label parent (.file name path () :: ts)
  | folder {parent : String} (name : String) {children ts : List (FileTree Unit)}
      (below : Laid label (Path.under parent name) children) (rest : Laid label parent ts) :
      Laid label parent
        (.folder name (Path.under parent name) (label (Path.under parent name)) children :: ts)

/-- A change of the trees in a folder that adds one file, in folders of these names. -/
def AddsFile (label : String → Option String) (parent : String) (names : List String)
    (path : String) (change : List (FileTree Unit) → List (FileTree Unit)) : Prop :=
  ∀ ts, Laid label parent ts → Laid label parent (change ts) ∧
    ∀ folders, (filesIn folders (change ts)).Perm
      (⟨folders ++ shownOn label parent names, path, ()⟩ :: filesIn folders ts)

theorem addsFile_append (label : String → Option String) (parent name path : String) :
    AddsFile label parent [] path (· ++ [.file name path ()]) := by
  intro ts h
  constructor
  · induction h with
    | nil => exact .file name path .nil
    | file name' path' _ ih => exact .file name' path' ih
    | folder name' below _ _ ih => exact .folder name' below ih
  · intro folders
    rw [filesIn_append, shownOn, List.append_nil]
    exact List.perm_append_singleton _ _

/-- A file that is added in a folder is added in the folder around it. -/
theorem AddsFile.inFolder {name path : String} {names : List String}
    {change : List (FileTree Unit) → List (FileTree Unit)}
    (hchange : AddsFile label (Path.under parent name) names path change) :
    AddsFile label parent (name :: names) path
      (inFolder name (Path.under parent name) (label (Path.under parent name)) change) := by
  intro ts h
  have hfiles {children : List (FileTree Unit)}
      (hlaid : Laid label (Path.under parent name) children) (folders : List String) :
      (filesAt folders (.folder name (Path.under parent name) (label (Path.under parent name))
        (change children))).Perm
        (⟨folders ++ shownOn label parent (name :: names), path, ()⟩ ::
          filesAt folders (.folder name (Path.under parent name) (label (Path.under parent name))
            children)) := by
    have hperm := (hchange children hlaid).2
      (folders ++ [shownAs name (label (Path.under parent name))])
    rw [List.append_assoc] at hperm
    rw [filesAt, filesAt, shownName_folder, shownName_folder]
    exact hperm
  induction h with
  | nil =>
    refine ⟨.folder name (hchange [] .nil).1 .nil, fun folders => ?_⟩
    have hperm := hfiles .nil folders
    simpa [FileTree.inFolder, filesIn, filesAt] using hperm
  | file name' path' _ ih =>
    obtain ⟨hlaid, hperm⟩ := ih hchange hfiles
    refine ⟨.file name' path' hlaid, fun folders => ?_⟩
    exact ((hperm folders).cons _).trans (.swap _ _ _)
  | @folder parent name' children ts below rest _ ih =>
    obtain ⟨hlaid, hperm⟩ := ih hchange hfiles
    rw [FileTree.inFolder]
    split
    · rename_i heq
      subst heq
      refine ⟨.folder name' (hchange children below).1 rest, fun folders => ?_⟩
      rw [filesIn, filesIn]
      exact (hfiles below folders).append_right _
    · refine ⟨.folder name' below hlaid, fun folders => ?_⟩
      rw [filesIn, filesIn]
      exact ((hperm folders).append_left _).trans List.perm_middle

theorem addsFile_insert (label : String → Option String) (path : String) {way : List String}
    (parent : String) (hway : way ≠ []) :
    AddsFile label parent way.dropLast path (insert label parent path way) := by
  induction way generalizing parent with
  | nil => exact absurd rfl hway
  | cons name way ih =>
    rcases way with _ | ⟨next, way⟩
    · exact addsFile_append label parent name path
    · exact (ih (Path.under parent name) (List.cons_ne_nil _ _)).inFolder

/-- The files of a tree of paths are these paths. -/
theorem files_ofPaths (label : String → Option String) (root : String) {located : List Located}
    (h : ∀ l ∈ located, l.way ≠ []) :
    (ofPaths label root located).files.Perm
      (located.map fun l => ⟨shownOn label root l.way.dropLast, l.path, ()⟩) := by
  suffices hfold : ∀ ts, Laid label root ts →
      (filesIn [] (located.foldl (fun ts l => insert label root l.path l.way ts) ts)).Perm
        (filesIn [] ts ++ located.map fun l => ⟨shownOn label root l.way.dropLast, l.path, ()⟩) by
    simpa [ofPaths, files, children, filesIn] using hfold [] .nil
  induction located with
  | nil => simp
  | cons l located ih =>
    intro ts hlaid
    rw [List.forall_mem_cons] at h
    obtain ⟨hadded, hperm⟩ := addsFile_insert label l.path root h.1 ts hlaid
    refine (ih h.2 _ hadded).trans ?_
    rw [List.map_cons]
    exact ((hperm []).append_right _).trans List.perm_middle.symm

end FileTree

/-! ## Trees on a disk -/

open FileTree (Placed shownOn)

/-- Paths below a directory are located by the ways to them. -/
theorem Disk.locateAll_perm (d : Disk) {root : String} {paths : List String}
    {ways : List (List String)} (hways : ∀ way ∈ ways, way ≠ [] ∧ ∀ name ∈ way, Path.IsName name)
    (hpaths : paths.Perm (ways.map (pathTo root))) :
    (d.locateAll root paths).Perm (ways.map fun way => ⟨way, pathTo root way⟩) := by
  refine (((Discovery.sorted_perm paths).trans hpaths).map _).trans ?_
  rw [List.map_map]
  refine .of_eq (List.map_congr_left fun way hway => ?_)
  have hrelative := Path.relative_pathTo (Discovery.isAbsolute_cwdPath d) root (hways way hway).1
    (hways way hway).2
  simp [Function.comp_def, hrelative]

/-- The files of a tree on a disk are the ends of the ways, in the folders on them. -/
theorem Disk.files_fileTree (d : Disk) {root : String} {paths : List String}
    {ways : List (List String)} (hways : ∀ way ∈ ways, IsWay way)
    (hpaths : paths.Perm (ways.map (pathTo root))) :
    (d.fileTree root paths).files.Perm
      (ways.map fun way => ⟨shownOn d.folderLabel? root way.dropLast, pathTo root way, ()⟩) := by
  have hlocated := d.locateAll_perm
    (fun way hway => ⟨(hways way hway).ne_nil, (hways way hway).names⟩) hpaths
  refine (FileTree.files_ofPaths _ root fun l hl => ?_).trans ?_
  · obtain ⟨way, hway, rfl⟩ := List.mem_map.1 (hlocated.mem_iff.1 hl)
    exact (hways way hway).ne_nil
  · have hperm := hlocated.map fun l : Located =>
      (⟨shownOn d.folderLabel? root l.way.dropLast, l.path, ()⟩ : Placed Unit)
    rw [List.map_map] at hperm
    exact hperm

end Courier
