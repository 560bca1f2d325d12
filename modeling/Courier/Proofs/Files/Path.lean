import Courier.Files.Path
import Courier.Proofs.Text.Cut
import Mathlib.Tactic.Common

/-!
# Ways and paths

A way down from a directory is a list of names, and `pathTo` is the path that follows it.  Seen from
the directory, that path is the way again (`relative_pathTo`), whatever the directory is called and
however redundant its path is.  Two ways with the same path are therefore equal
(`pathTo_injective`).

The proof follows `normalise`: its stack holds the components of the absolute path
(`components_normalise`), and a name below the path is one more component (`stack_join`).
-/

namespace Courier.Path

open Text (splitOn joinWith splitOn_of_not_mem splitOn_append_cons splitOn_joinWith
  not_mem_of_mem_splitOn splitOn_append_sep)

/-- A name that a directory can hold. -/
structure IsName (name : String) : Prop where
  ne_nil : name.toList ≠ []
  slash_not_mem : '/' ∉ name.toList
  ne_dot : name.toList ≠ ['.']
  ne_dots : name.toList ≠ ['.', '.']

instance (name : String) : Decidable (IsName name) :=
  decidable_of_iff (name.toList ≠ [] ∧ '/' ∉ name.toList ∧ name.toList ≠ ['.'] ∧
    name.toList ≠ ['.', '.'])
    ⟨fun ⟨ne_nil, slash_not_mem, ne_dot, ne_dots⟩ => ⟨ne_nil, slash_not_mem, ne_dot, ne_dots⟩,
      fun h => ⟨h.ne_nil, h.slash_not_mem, h.ne_dot, h.ne_dots⟩⟩

/-- The path of what a way down from a directory leads to. -/
def pathTo (directory : String) (way : List String) : String := way.foldl under directory

theorem pathTo_append (directory : String) (way way' : List String) :
    pathTo directory (way ++ way') = pathTo (pathTo directory way) way' :=
  List.foldl_append

/-! ## The stack of components -/

/-- The components of an absolute path, the last one first. -/
def stack (path : Chars) : List Chars := (splitOn '/' path).foldl (push true) []

theorem mem_push {absolute : Bool} {components : List Chars} {c d : Chars}
    (h : d ∈ push absolute components c) : d ∈ components ∨ d = c ∧ c ≠ [] := by
  rw [push.eq_def] at h
  split at h
  · exact .inl h
  · rename_i hc
    rw [not_or] at hc
    split at h
    · rcases List.mem_cons.1 h with rfl | h
      · exact .inr ⟨rfl, hc.1⟩
      · exact .inl h
    · rcases components with _ | ⟨top, rest⟩
      · dsimp only at h
        split at h
        · simp at h
        · exact .inr ⟨List.mem_singleton.1 h, hc.1⟩
      · dsimp only at h
        split at h
        · rcases List.mem_cons.1 h with rfl | h
          · exact .inr ⟨rfl, hc.1⟩
          · exact .inl h
        · exact .inl (List.mem_cons_of_mem _ h)

theorem mem_foldl_push {absolute : Bool} {pieces components : List Chars} {d : Chars}
    (h : d ∈ pieces.foldl (push absolute) components) :
    d ∈ components ∨ d ∈ pieces ∧ d ≠ [] := by
  induction pieces generalizing components with
  | nil => exact .inl h
  | cons piece pieces ih =>
    rcases ih h with h | ⟨h, hne⟩
    · rcases mem_push h with h | ⟨rfl, hne⟩
      · exact .inl h
      · exact .inr ⟨List.mem_cons_self, hne⟩
    · exact .inr ⟨List.mem_cons_of_mem _ h, hne⟩

/-- The components of a stack are not empty and hold no slash. -/
theorem mem_stack {path component : Chars} (h : component ∈ stack path) :
    component ≠ [] ∧ '/' ∉ component := by
  rcases mem_foldl_push h with h | ⟨h, hne⟩
  · simp at h
  · exact ⟨hne, not_mem_of_mem_splitOn h⟩

theorem components_joinWith {pieces : List Chars} (h : ∀ c ∈ pieces, c ≠ [] ∧ '/' ∉ c) :
    components (joinWith ['/'] pieces) = pieces := by
  rcases pieces with _ | ⟨piece, pieces⟩
  · rfl
  · rw [components, splitOn_joinWith (List.cons_ne_nil _ _) fun c hc => (h c hc).2]
    refine List.filter_eq_self.2 fun c hc => ?_
    simpa using (h c hc).1

theorem components_slash_cons (path : Chars) : components ('/' :: path) = components path := by
  rw [components, components, splitOn, if_pos rfl]
  rfl

/-- The components of an absolute path in normal form are those of its stack. -/
theorem components_normalise {path : Chars} (h : isAbsolute path = true) :
    components (normalise path) = (stack path).reverse := by
  have hjoin : components (joinWith ['/'] (stack path).reverse) = (stack path).reverse :=
    components_joinWith fun c hc => mem_stack (List.mem_reverse.1 hc)
  rcases path with _ | ⟨c, path⟩
  · simp [isAbsolute] at h
  obtain rfl : c = '/' := by simpa [isAbsolute] using h
  have hslashes : leadingSlashes ('/' :: path) = ['/'] ∨
      leadingSlashes ('/' :: path) = ['/', '/'] := by
    rw [leadingSlashes.eq_def]
    split
    · exact .inl rfl
    · exact .inr rfl
    · exact .inl rfl
    · rename_i hother
      exact absurd rfl (hother path)
  rw [normalise]
  rcases hslashes with hs | hs <;> simp only [hs] <;>
    simpa [components_slash_cons, stack] using hjoin

/-! ## Names below a path -/

theorem isAbsolute_of_slash_not_mem {path : Chars} (h : '/' ∉ path) : isAbsolute path = false := by
  rcases path with _ | ⟨c, path⟩
  · rfl
  · rw [List.mem_cons, not_or] at h
    simpa [isAbsolute] using Ne.symm h.1

theorem push_name {name : String} (h : IsName name) (components : List Chars) :
    push true components name.toList = name.toList :: components := by
  rw [push.eq_def, if_neg (not_or.2 ⟨h.ne_nil, h.ne_dot⟩), if_pos h.ne_dots]

theorem suffix_join (parent path : Chars) : path <:+ join parent path := by
  rw [join]
  split
  · exact List.suffix_refl path
  · split
    · exact List.suffix_append _ _
    · exact ⟨parent ++ ['/'], by simp⟩

/-- What stands between a path and a relative path that is put below it. -/
def gap (parent : Chars) : Chars :=
  if parent.isEmpty || parent.getLast? = some '/' then [] else ['/']

theorem join_of_relative {path : Chars} (h : isAbsolute path = false) (parent : Chars) :
    join parent path = parent ++ gap parent ++ path := by
  rw [join, h, gap]
  split
  · contradiction
  · split <;> simp

theorem gap_append (before : Chars) {path : Chars} (h : path ≠ []) :
    gap (before ++ path) = gap path := by
  have hlast : (before ++ path).getLast? = path.getLast? := by
    rw [List.getLast?_append, List.getLast?_eq_some_getLast h, Option.some_or]
  rw [gap, gap, hlast]
  simp [h]

/-- The last component of a name below a path is the name. -/
theorem exists_splitOn_join (parent : Chars) {name : String} (h : IsName name) :
    ∃ before, splitOn '/' (join parent name.toList) = before ++ [name.toList] := by
  have hname := splitOn_of_not_mem h.slash_not_mem
  rw [join_of_relative (isAbsolute_of_slash_not_mem h.slash_not_mem), gap]
  by_cases hlast : parent.getLast? = some '/'
  · obtain ⟨before, rfl⟩ := List.getLast?_eq_some_iff.1 hlast
    exact ⟨splitOn '/' before, by simp [splitOn_append_sep, hname]⟩
  · by_cases hparent : parent = []
    · exact ⟨[], by simp [hparent, hname]⟩
    · exact ⟨splitOn '/' parent, by simp [hlast, hparent, splitOn_append_sep, hname]⟩

/-- A name below a path is one more component. -/
theorem stack_join (parent : Chars) {name : String} (h : IsName name) :
    stack (join parent name.toList) = name.toList :: stack parent := by
  have hname := splitOn_of_not_mem h.slash_not_mem
  have hpush (components : List Chars) : push true components [] = components := by
    rw [push.eq_def, if_pos (.inl rfl)]
  rw [join_of_relative (isAbsolute_of_slash_not_mem h.slash_not_mem), gap]
  by_cases hlast : parent.getLast? = some '/'
  · obtain ⟨before, rfl⟩ := List.getLast?_eq_some_iff.1 hlast
    have hsplit : splitOn '/' (before ++ ['/']) = splitOn '/' before ++ [[]] :=
      splitOn_append_sep '/' before []
    simp [stack, splitOn_append_sep, hname, push_name h, hsplit, hpush]
  · by_cases hparent : parent = []
    · subst hparent
      simp [stack, hname, push_name h, hpush, splitOn]
    · simp [stack, hparent, hlast, splitOn_append_sep, hname, push_name h]

/-- A path is absolute when the path above it is. -/
theorem isAbsolute_append {parent : Chars} (hparent : parent ≠ []) (rest : Chars) :
    isAbsolute (parent ++ rest) = isAbsolute parent := by
  obtain ⟨c, parent, rfl⟩ := List.exists_cons_of_ne_nil hparent
  rfl

theorem join_of_absolute {path : Chars} (h : isAbsolute path = true) (parent : Chars) :
    join parent path = path := by
  rw [join, if_pos h]

theorem gap_append_gap (path : Chars) : gap (path ++ gap path) = [] := by
  by_cases h : path.isEmpty || path.getLast? = some '/'
  · rw [show gap path = [] from if_pos h, List.append_nil, gap, if_pos h]
  · rw [show gap path = ['/'] from if_neg h, gap_append path (List.cons_ne_nil _ _)]
    rfl

/-- A name can be put below a path before or after the path is put below a directory. -/
theorem join_join (cwd parent : Chars) {name : String} (h : IsName name) :
    join cwd (join parent name.toList) = join (join cwd parent) name.toList := by
  have hrelative := isAbsolute_of_slash_not_mem h.slash_not_mem
  by_cases hparent : parent = []
  · subst hparent
    have hname : join [] name.toList = name.toList := join_of_relative hrelative []
    have hempty : join cwd [] = cwd ++ gap cwd := by
      rw [join_of_relative rfl, List.append_nil]
    rw [hname, hempty, join_of_relative hrelative, join_of_relative hrelative, gap_append_gap,
      List.append_nil]
  · have hname := join_of_relative hrelative
    have habsolute : isAbsolute (join parent name.toList) = isAbsolute parent := by
      rw [hname, List.append_assoc, isAbsolute_append hparent]
    rcases hroot : isAbsolute parent with _ | _
    · rw [hroot] at habsolute
      rw [join_of_relative habsolute, join_of_relative hroot, hname, hname, gap_append _ hparent]
      simp
    · rw [hroot] at habsolute
      rw [join_of_absolute habsolute, join_of_absolute hroot]

/-! ## Ways -/

theorem toList_under (parent name : String) :
    (under parent name).toList = join parent.toList name.toList := by
  rw [under, String.toList_ofList]

variable {cwd : Chars} {directory : String} {way : List String}

/-- The stack of a path below a directory begins with the way to it. -/
theorem stack_pathTo (cwd : Chars) (directory : String) (hway : ∀ name ∈ way, IsName name) :
    (stack (join cwd (pathTo directory way).toList)).reverse =
      (stack (join cwd directory.toList)).reverse ++ way.map String.toList := by
  induction way generalizing directory with
  | nil => simp [pathTo]
  | cons name way ih =>
    have hname := hway name List.mem_cons_self
    have hrest : ∀ n ∈ way, IsName n := fun n hn => hway n (List.mem_cons_of_mem _ hn)
    have h := ih (under directory name) hrest
    rw [toList_under, join_join cwd directory.toList hname, stack_join _ hname] at h
    simpa [pathTo] using h

theorem commonLength_append (start rest : List Chars) :
    commonLength start (start ++ rest) = start.length := by
  induction start with
  | nil => simp [commonLength]
  | cons c start ih => simp [commonLength, ih]

/-- Seen from a directory, the path of a way down from it is the way. -/
theorem relative_pathTo (hcwd : isAbsolute cwd = true) (directory : String) (hne : way ≠ [])
    (hway : ∀ name ∈ way, IsName name) :
    relative cwd directory.toList (pathTo directory way).toList = way.map String.toList := by
  have hcwd_ne : cwd ≠ [] := by
    rintro rfl
    simp [isAbsolute] at hcwd
  have habsolute (path : Chars) : isAbsolute (join cwd path) = true := by
    rcases hroot : isAbsolute path with _ | _
    · rw [join_of_relative hroot, List.append_assoc, isAbsolute_append hcwd_ne, hcwd]
    · rw [join_of_absolute hroot, hroot]
  rw [relative, absolute, absolute, components_normalise (habsolute _),
    components_normalise (habsolute _), stack_pathTo cwd directory hway, relativeComponents,
    commonLength_append]
  simp [hne]

/-- Different ways down from a directory have different paths. -/
theorem pathTo_injective {way' : List String} (hway : ∀ name ∈ way, IsName name)
    (hway' : ∀ name ∈ way', IsName name) (h : pathTo directory way = pathTo directory way') :
    way = way' := by
  have hstack := stack_pathTo [] directory hway
  rw [h, stack_pathTo [] directory hway', List.append_cancel_left_eq] at hstack
  exact ((List.map_inj_right fun _ _ => String.toList_inj.1).1 hstack).symm

end Courier.Path
