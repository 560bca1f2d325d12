import Courier.Proofs.Collection.Leaf
import Mathlib.Data.List.Nodup
import Mathlib.Data.List.Perm.Basic
import Mathlib.Tactic.Common

/-!
# Siblings

The trees in one folder are siblings.  `Distinct` says that their names tell them apart, folders
among folders and files among files, in every folder.  `Rearranged` says that the same trees are
given in another order, in any folder; this keeps them distinct (`Distinct.rearranged`).
-/

namespace Courier.FileTree

variable {α : Type}

/-! ## Names -/

def folderName? : FileTree α → Option String
  | .folder name _ _ _ => some name
  | .file _ _ _ => none

def fileName? : FileTree α → Option String
  | .folder _ _ _ _ => none
  | .file name _ _ => some name

/-- The names of the folders among trees. -/
def folderNames (ts : List (FileTree α)) : List String := ts.filterMap folderName?

/-- The names of the files among trees. -/
def fileNames (ts : List (FileTree α)) : List String := ts.filterMap fileName?

@[simp] theorem folderNames_file (name path : String) (content : α) (ts : List (FileTree α)) :
    folderNames (.file name path content :: ts) = folderNames ts := rfl

@[simp] theorem folderNames_folder (name path : String) (shown : Option String)
    (children ts : List (FileTree α)) :
    folderNames (.folder name path shown children :: ts) = name :: folderNames ts := rfl

@[simp] theorem fileNames_file (name path : String) (content : α) (ts : List (FileTree α)) :
    fileNames (.file name path content :: ts) = name :: fileNames ts := rfl

@[simp] theorem fileNames_folder (name path : String) (shown : Option String)
    (children ts : List (FileTree α)) :
    fileNames (.folder name path shown children :: ts) = fileNames ts := rfl

/-- No two folders in one folder have the same name, and no two files in one folder, at any depth. -/
inductive Distinct : List (FileTree α) → Prop
  | intro {ts : List (FileTree α)} (folders : (folderNames ts).Nodup) (files : (fileNames ts).Nodup)
      (inside : ∀ t ∈ ts, Distinct t.children) : Distinct ts

theorem Distinct.nil : Distinct ([] : List (FileTree α)) := ⟨.nil, .nil, by simp⟩

theorem Distinct.folders {ts : List (FileTree α)} (h : Distinct ts) : (folderNames ts).Nodup := by
  cases h
  assumption

theorem Distinct.files {ts : List (FileTree α)} (h : Distinct ts) : (fileNames ts).Nodup := by
  cases h
  assumption

theorem Distinct.inside {ts : List (FileTree α)} (h : Distinct ts) :
    ∀ t ∈ ts, Distinct t.children := by
  cases h
  assumption

theorem Distinct.tail {t : FileTree α} {ts : List (FileTree α)} (h : Distinct (t :: ts)) :
    Distinct ts := by
  have hsublist := List.sublist_cons_self t ts
  refine ⟨h.folders.sublist (hsublist.filterMap _), h.files.sublist (hsublist.filterMap _), ?_⟩
  exact fun u hu => h.inside u (List.mem_cons_of_mem _ hu)

theorem Distinct.file {name : String} {ts : List (FileTree α)} (path : String) (content : α)
    (fresh : name ∉ fileNames ts) (rest : Distinct ts) :
    Distinct (.file name path content :: ts) := by
  refine ⟨rest.folders, rest.files.cons fresh, List.forall_mem_cons.2 ⟨.nil, rest.inside⟩⟩

theorem Distinct.folder {name : String} {children ts : List (FileTree α)} (path : String)
    (shown : Option String) (fresh : name ∉ folderNames ts) (inside : Distinct children)
    (rest : Distinct ts) : Distinct (.folder name path shown children :: ts) := by
  refine ⟨rest.folders.cons fresh, rest.files, List.forall_mem_cons.2 ⟨inside, rest.inside⟩⟩

/-! ## Other orders -/

/-- The trees are put in another order, and so are those in any folder among them. -/
inductive Rearranged : List (FileTree α) → List (FileTree α) → Prop
  | nil : Rearranged [] []
  | file (name path : String) (content : α) {ts ts' : List (FileTree α)}
      (rest : Rearranged ts ts') :
      Rearranged (.file name path content :: ts) (.file name path content :: ts')
  | folder (name path : String) (shown : Option String) {children children' : List (FileTree α)}
      {ts ts' : List (FileTree α)} (inside : Rearranged children children')
      (rest : Rearranged ts ts') :
      Rearranged (.folder name path shown children :: ts) (.folder name path shown children' :: ts')
  | swap (t u : FileTree α) (ts : List (FileTree α)) : Rearranged (u :: t :: ts) (t :: u :: ts)
  | trans {ts ts' ts'' : List (FileTree α)} (first : Rearranged ts ts')
      (second : Rearranged ts' ts'') : Rearranged ts ts''

theorem Rearranged.refl : ∀ ts : List (FileTree α), Rearranged ts ts
  | [] => .nil
  | .file name path content :: ts => .file name path content (.refl ts)
  | .folder name path shown children :: ts =>
    .folder name path shown (.refl children) (.refl ts)

variable {ts ts' : List (FileTree α)}

theorem Rearranged.cons (t : FileTree α) (h : Rearranged ts ts') :
    Rearranged (t :: ts) (t :: ts') := by
  rcases t with ⟨name, path, content⟩ | ⟨name, path, shown, children⟩
  · exact .file name path content h
  · exact .folder name path shown (.refl children) h

/-- In one folder any order will do. -/
theorem Rearranged.of_perm (h : ts.Perm ts') : Rearranged ts ts' := by
  induction h with
  | nil => exact .nil
  | cons t _ ih => exact ih.cons t
  | swap t u ts => exact .swap t u ts
  | trans _ _ first second => exact first.trans second

theorem Rearranged.folderNames_perm (h : Rearranged ts ts') :
    (folderNames ts).Perm (folderNames ts') := by
  induction h with
  | nil => exact .nil
  | file _ _ _ _ ih => exact ih
  | folder name _ _ _ _ _ ih => exact ih.cons name
  | swap t u ts => exact (List.Perm.swap t u ts).filterMap _
  | trans _ _ first second => exact first.trans second

theorem Rearranged.fileNames_perm (h : Rearranged ts ts') :
    (fileNames ts).Perm (fileNames ts') := by
  induction h with
  | nil => exact .nil
  | file name _ _ _ ih => exact ih.cons name
  | folder _ _ _ _ _ _ ih => exact ih
  | swap t u ts => exact (List.Perm.swap t u ts).filterMap _
  | trans _ _ first second => exact first.trans second

/-- Every tree is one of those given, up to the order of what is in it. -/
theorem Rearranged.exists_of_mem (h : Rearranged ts ts') {t' : FileTree α} (ht' : t' ∈ ts') :
    ∃ t ∈ ts, Rearranged t.children t'.children := by
  induction h generalizing t' with
  | nil => cases ht'
  | file name path content _ ih =>
    rcases List.mem_cons.1 ht' with rfl | ht'
    · exact ⟨_, List.mem_cons_self, .refl _⟩
    · obtain ⟨t, ht, hinside⟩ := ih ht'
      exact ⟨t, List.mem_cons_of_mem _ ht, hinside⟩
  | folder name path shown inside _ _ ih =>
    rcases List.mem_cons.1 ht' with rfl | ht'
    · exact ⟨_, List.mem_cons_self, inside⟩
    · obtain ⟨t, ht, hinside⟩ := ih ht'
      exact ⟨t, List.mem_cons_of_mem _ ht, hinside⟩
  | swap t u ts => exact ⟨t', (List.Perm.swap t u ts).mem_iff.2 ht', .refl _⟩
  | trans _ _ first second =>
    obtain ⟨t, ht, hsecond⟩ := second ht'
    obtain ⟨u, hu, hfirst⟩ := first ht
    exact ⟨u, hu, hfirst.trans hsecond⟩

/-- Another order keeps siblings distinct. -/
theorem Distinct.rearranged (h : Distinct ts) (hts : Rearranged ts ts') : Distinct ts' := by
  induction h generalizing ts' with
  | intro folders files _ ih =>
    refine ⟨hts.folderNames_perm.nodup folders, hts.fileNames_perm.nodup files, fun t' ht' => ?_⟩
    obtain ⟨t, ht, hinside⟩ := hts.exists_of_mem ht'
    exact ih t ht hinside

end Courier.FileTree
