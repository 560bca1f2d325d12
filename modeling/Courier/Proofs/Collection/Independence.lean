import Courier.Proofs.Collection.Layout
import Courier.Proofs.Collection.Mirror
import Courier.Proofs.Collection.Order
import Mathlib.Data.List.Forall2
import Mathlib.Tactic.Common

/-!
# No request affects another

What one file holds affects nothing of what comes of the other files.  A tree in which one file is
left open is a `FileTree.Gap`, to be filled with a request or with none.  `buildTree_independent` is
the main statement: whatever the gap is filled with, the other files are built in the same order,
with the same leaves, warnings and failures, and what comes of the file itself is put between them.

* `Traced` says which files, in which order, a yield comes from.
* `Grows` says how one more item changes the others: it does not, but the folders around it may be
  new.
* `Adds` puts the two together, and is followed through a folder (`Adds.inFolder`) and past the
  siblings (`Adds.around`).
-/

namespace Courier

namespace FileTree

/-! ## Trees in which one file is left open -/

/-- The children of a folder, one of which is a file without content or a folder that such a file is
in. -/
inductive Gap (α : Type) where
  | file (before : List (FileTree α)) (name path : String) (after : List (FileTree α))
  | folder (before : List (FileTree α)) (name path : String) (shown : Option String)
      (children : Gap α) (after : List (FileTree α))

namespace Gap

variable {α : Type}

/-- The children when the file has a content. -/
def fill (content : α) : Gap α → List (FileTree α)
  | .file before name path after => before ++ .file name path content :: after
  | .folder before name path shown children after =>
    before ++ .folder name path shown (children.fill content) :: after

/-- The file with a content, in the folders around it. -/
def place {β : Type} (content : β) : Gap α → Placed β
  | .file _ _ path _ => ⟨[], path, content⟩
  | .folder _ name _ shown children _ => (children.place content).within [shownAs name shown]

end Gap

/-- A file that has a request. -/
def Placed.request? (f : Placed (Option Request)) : Option (Placed Request) :=
  f.content.map fun r => ⟨f.folders, f.path, r⟩

/-- The files of trees that have requests. -/
def requestsIn (ts : List (FileTree (Option Request))) : List (Placed Request) :=
  (filesIn [] ts).filterMap Placed.request?

theorem requestsIn_append (ts ts' : List (FileTree (Option Request))) :
    requestsIn (ts ++ ts') = requestsIn ts ++ requestsIn ts' := by
  rw [requestsIn, filesIn_append, List.filterMap_append]
  rfl

theorem requestsIn_file (name path : String) (content : Option Request)
    (ts : List (FileTree (Option Request))) :
    requestsIn (.file name path content :: ts) =
      (content.map fun r => ⟨[], path, r⟩).toList ++ requestsIn ts := by
  rw [requestsIn, filesIn, filesAt, List.singleton_append, List.filterMap_cons, Placed.request?]
  rcases content with _ | r
  · rfl
  · rfl

theorem requestsIn_folder (name path : String) (shown : Option String)
    (children ts : List (FileTree (Option Request))) :
    requestsIn (.folder name path shown children :: ts) =
      (requestsIn children).map (Placed.within [shownAs name shown]) ++ requestsIn ts := by
  rw [requestsIn, filesIn, filesAt, shownName_folder, filesIn_eq_map, List.filterMap_append,
    List.filterMap_map]
  congr 1
  rw [requestsIn, List.map_filterMap]
  refine List.filterMap_congr fun f _ => ?_
  rw [Function.comp_apply, Placed.request?, Placed.request?, Option.map_map]
  rfl

end FileTree

namespace Collection

open FileTree (Gap Placed requestsIn shownAs)

variable {o : Options}

/-! ## What a file yields -/

/-- What a file yields, apart from the folders around it. -/
def shareOf (o : Options) (f : Placed Request) : Yield :=
  (yieldOf o f.path f.content).toOption.getD .empty

/-- Building the requests of trees does not end in a fault. -/
def Handled (o : Options) (ts : List (FileTree (Option Request))) : Prop :=
  ∀ f ∈ requestsIn ts, ∃ y, yieldOf o f.path f.content = .ok y

theorem shareOf_eq_of_yieldOf {path : String} {r : Request} {y : Yield}
    (h : yieldOf o path r = .ok y) : shareOf o ⟨[], path, r⟩ = y := by
  rw [shareOf, h]
  rfl

/-- A yield comes from files, one after the other. -/
structure Traced (o : Options) (files : List (Placed Request)) (y : Yield) : Prop where
  leaves_eq : leavesIn [] y.items = files.flatMap fun f => leavesIn f.folders (shareOf o f).items
  warnings_eq : y.warnings = files.flatMap fun f => (shareOf o f).warnings
  failures_eq : y.failures = files.flatMap fun f => (shareOf o f).failures

/-- A leaf in further folders. -/
def Leaf.within (folders : List String) (leaf : Leaf) : Leaf :=
  { leaf with folders := folders ++ leaf.folders }

mutual

theorem leaves_append (outer folders : List String) :
    ∀ item : Item, item.leaves (outer ++ folders) = (item.leaves folders).map (Leaf.within outer)
  | .request content => by
    rw [Item.leaves, Item.leaves, List.map_singleton, Leaf.within]
  | .folder name items => by
    rw [Item.leaves, Item.leaves, List.append_assoc, leavesIn_append_folders outer _ items]

/-- Further folders around items only come first in what is around their leaves. -/
theorem leavesIn_append_folders (outer folders : List String) :
    ∀ items : List Item,
      leavesIn (outer ++ folders) items = (leavesIn folders items).map (Leaf.within outer)
  | [] => by rw [leavesIn, leavesIn, List.map_nil]
  | item :: items => by
    rw [leavesIn, leavesIn, leaves_append outer folders item,
      leavesIn_append_folders outer folders items, List.map_append]

end

namespace Traced

variable {files files' : List (Placed Request)} {y y' : Yield}

theorem empty : Traced o [] .empty := ⟨by rw [Yield.empty, leavesIn]; rfl, rfl, rfl⟩

theorem append (h : Traced o files y) (h' : Traced o files' y') :
    Traced o (files ++ files') (y.append y') where
  leaves_eq := by
    rw [List.flatMap_append, ← h.leaves_eq, ← h'.leaves_eq, leavesIn_eq_flatMap,
      leavesIn_eq_flatMap, leavesIn_eq_flatMap, ← List.flatMap_append]
    rfl
  warnings_eq := by
    rw [List.flatMap_append, ← h.warnings_eq, ← h'.warnings_eq]
    rfl
  failures_eq := by
    rw [List.flatMap_append, ← h.failures_eq, ← h'.failures_eq]
    rfl

theorem inFolder (label : String) (h : Traced o files y) :
    Traced o (files.map (Placed.within [label])) (y.inFolder label) where
  leaves_eq := by
    have hleaves : leavesIn [] (y.inFolder label).items = leavesIn [label] y.items := by
      rw [Yield.inFolder]
      rcases y.items with _ | ⟨item, items⟩
      · rfl
      · exact List.append_nil _
    have hwithin := leavesIn_append_folders [label] [] y.items
    rw [List.append_nil] at hwithin
    rw [hleaves, hwithin, h.leaves_eq, List.map_flatMap, List.flatMap_map]
    refine List.flatMap_congr fun f _ => ?_
    exact (leavesIn_append_folders [label] f.folders _).symm
  warnings_eq := by
    rw [List.flatMap_map]
    exact h.warnings_eq
  failures_eq := by
    rw [List.flatMap_map]
    exact h.failures_eq

/-- A request yields its own share. -/
theorem request {path : String} {r : Request} (h : yieldOf o path r = .ok y) :
    Traced o [⟨[], path, r⟩] y := by
  have hshare := shareOf_eq_of_yieldOf h
  refine ⟨?_, ?_, ?_⟩
  · rw [List.flatMap_singleton, hshare]
  · rw [List.flatMap_singleton, hshare]
  · rw [List.flatMap_singleton, hshare]

end Traced

/-! ## Building files in order -/

/-- A computation ends in what comes from files. -/
def Builds (o : Options) (build : Building Yield) (files : List (Placed Request)) : Prop :=
  ∃ y, Ends build (.ok y) ∧ Traced o files y

theorem Builds.runAll {computations : List (Building Yield)} {parts : List (List (Placed Request))}
    (h : List.Forall₂ (Builds o) computations parts) :
    Builds o (runAll computations) parts.flatten := by
  induction h with
  | nil => exact ⟨.empty, .pure _, .empty⟩
  | cons hbuild _ ih =>
    obtain ⟨y, hends, htraced⟩ := hbuild
    obtain ⟨y', hends', htraced'⟩ := ih
    exact ⟨y.append y', .bind hends (.bind hends' (.pure _)), htraced.append htraced'⟩

theorem Builds.inFolder {build : Building Yield} {files : List (Placed Request)} (label : String)
    (h : Builds o build files) :
    Builds o (do return (← build).inFolder label) (files.map (Placed.within [label])) := by
  obtain ⟨y, hends, htraced⟩ := h
  exact ⟨y.inFolder label, inFolder_ends label hends, htraced.inFolder label⟩

theorem Yield.append_assoc (a b c : Yield) : (a.append b).append c = a.append (b.append c) := by
  simp [Yield.append]

/-- What is built before and after one more computation does not depend on it. -/
theorem exists_runAll_middle {first last : List (Building Yield)}
    {before after : List (List (Placed Request))} (hfirst : List.Forall₂ (Builds o) first before)
    (hlast : List.Forall₂ (Builds o) last after) :
    ∃ a b, Traced o before.flatten a ∧ Traced o after.flatten b ∧
      Ends (runAll (first ++ last)) (.ok (a.append b)) ∧
      ∀ build y, Ends build (.ok y) →
        Ends (runAll (first ++ build :: last)) (.ok (a.append (y.append b))) := by
  induction hfirst with
  | nil =>
    obtain ⟨b, hends, htraced⟩ := Builds.runAll hlast
    exact ⟨.empty, b, .empty, htraced, hends, fun build y hbuild =>
      .bind hbuild (.bind hends (.pure _))⟩
  | cons hbuild _ ih =>
    obtain ⟨y, hends, htraced⟩ := hbuild
    obtain ⟨a, b, ha, hb, hwithout, hwith⟩ := ih
    refine ⟨y.append a, b, htraced.append ha, hb, ?_, fun build y' hbuild => ?_⟩
    · rw [Yield.append_assoc]
      exact .bind hends (.bind hwithout (.pure _))
    · rw [Yield.append_assoc]
      exact .bind hends (.bind (hwith build y' hbuild) (.pure _))

theorem childList_append (o : Options) (ts ts' : List (FileTree (Option Request))) :
    childList o (ts ++ ts') = childList o ts ++ childList o ts' := by
  induction ts with
  | nil => rw [List.nil_append, childList, List.nil_append]
  | cons t ts ih => rw [List.cons_append, childList, childList, ih, List.cons_append]

theorem Handled.of_append {ts ts' : List (FileTree (Option Request))}
    (h : Handled o (ts ++ ts')) : Handled o ts ∧ Handled o ts' := by
  rw [Handled, FileTree.requestsIn_append, List.forall_mem_append] at h
  exact h

theorem Handled.of_cons {t : FileTree (Option Request)} {ts : List (FileTree (Option Request))}
    (h : Handled o (t :: ts)) : Handled o ts := by
  rw [← List.singleton_append] at h
  exact h.of_append.2

theorem Handled.of_folder {name path : String} {shown : Option String}
    {children ts : List (FileTree (Option Request))}
    (h : Handled o (.folder name path shown children :: ts)) : Handled o children := by
  intro f hf
  rw [Handled, FileTree.requestsIn_folder] at h
  exact h (f.within [shownAs name shown]) (List.mem_append_left _ (List.mem_map_of_mem hf))

/-- Every computation for trees builds the files of one of them. -/
theorem exists_builds (o : Options) :
    ∀ ts : List (FileTree (Option Request)), Handled o ts →
      ∃ parts, List.Forall₂ (Builds o) (builds o ts) parts ∧
        parts.flatten.Perm (requestsIn ts)
  | [], _ => ⟨[], .nil, .nil⟩
  | .file name path none :: ts, h => by
    obtain ⟨parts, hparts, hperm⟩ := exists_builds o ts h.of_cons
    refine ⟨parts, hparts, ?_⟩
    rw [FileTree.requestsIn_file]
    exact hperm
  | .file name path (some r) :: ts, h => by
    obtain ⟨parts, hparts, hperm⟩ := exists_builds o ts h.of_cons
    rw [Handled, FileTree.requestsIn_file] at h
    obtain ⟨y, hy⟩ := h ⟨[], path, r⟩ List.mem_cons_self
    have hends := buildRequest_ends o path r
    rw [hy] at hends
    refine ⟨[_] :: parts, .cons ⟨y, hends, .request hy⟩ hparts, ?_⟩
    rw [FileTree.requestsIn_file]
    exact hperm.cons _
  | .folder name path shown children :: ts, h => by
    obtain ⟨inner, hinner, hperm⟩ := exists_builds o children h.of_folder
    obtain ⟨parts, hparts, hperm'⟩ := exists_builds o ts h.of_cons
    obtain ⟨inner', hinner', hsame⟩ :=
      List.perm_comp_forall₂ (arrange_perm (childList o children)) hinner
    have hfolder := (Builds.runAll hinner').inFolder
      (FileTree.folder name path shown children).shownName
    refine ⟨_ :: parts, .cons hfolder hparts, ?_⟩
    rw [FileTree.requestsIn_folder, FileTree.shownName_folder, List.flatten_cons]
    exact ((hsame.flatten.trans hperm).map _).append hperm'

/-! ## One file more -/

/-- One more item among others: next to them, or in a folder among them that has further items or
is new. -/
inductive Grows (item : Item) : List String → List Item → List Item → Prop
  | here (before after : List Item) : Grows item [] (before ++ after) (before ++ item :: after)
  | inside {folders : List String} {inner inner' : List Item} (label : String)
      (before after : List Item) (ne_nil : inner ≠ []) (grows : Grows item folders inner inner') :
      Grows item (label :: folders) (before ++ .folder label inner :: after)
        (before ++ .folder label inner' :: after)
  | fresh {folders : List String} {inner' : List Item} (label : String) (before after : List Item)
      (grows : Grows item folders [] inner') :
      Grows item (label :: folders) (before ++ after) (before ++ .folder label inner' :: after)

theorem Grows.ne_nil {item : Item} {folders : List String} {items items' : List Item}
    (h : Grows item folders items items') : items' ≠ [] := by
  cases h with
  | here => exact List.append_ne_nil_of_right_ne_nil _ (List.cons_ne_nil _ _)
  | inside => exact List.append_ne_nil_of_right_ne_nil _ (List.cons_ne_nil _ _)
  | fresh => exact List.append_ne_nil_of_right_ne_nil _ (List.cons_ne_nil _ _)

theorem Grows.around {item : Item} {folders : List String} {items items' : List Item}
    (h : Grows item folders items items') (first last : List Item) :
    Grows item folders (first ++ items ++ last) (first ++ items' ++ last) := by
  cases h with
  | here before after =>
    have hhere : Grows item [] _ _ := .here (first ++ before) (after ++ last)
    simpa using hhere
  | inside label before after ne_nil grows =>
    simpa using Grows.inside label (first ++ before) (after ++ last) ne_nil grows
  | fresh label before after grows =>
    simpa using Grows.fresh label (first ++ before) (after ++ last) grows

/-- The items of a folder as an item, unless there are none. -/
def enfolded (label : String) (items : List Item) : List Item :=
  if items.isEmpty then [] else [.folder label items]

/-- What comes of a file, if it has a request, is put between what comes of the others: its leaf,
its warnings and its failure come at one place, and its item is the only change of the items. -/
structure Adds (o : Options) (own : Option (Placed Request)) (others : List (Placed Request))
    (items : List Item) (y : Yield) : Prop where
  order : ∃ before after, others = before ++ after ∧
    Traced o (before ++ own.toList ++ after) y
  same : (∀ f ∈ own, (shareOf o f).items = []) → y.items = items
  grows : ∀ f ∈ own, ∀ item ∈ (shareOf o f).items, Grows item f.folders items y.items

namespace Adds

variable {own : Option (Placed Request)} {others : List (Placed Request)} {items : List Item}
  {y : Yield}

theorem of_traced (h : Traced o others y) : Adds o none others y.items y where
  order := ⟨others, [], (List.append_nil _).symm, by simpa using h⟩
  same _ := rfl
  grows f hf := by cases hf

theorem request {path : String} {r : Request} (h : yieldOf o path r = .ok y) :
    Adds o (some ⟨[], path, r⟩) [] [] y where
  order := ⟨[], [], rfl, .request h⟩
  same hnone := by
    have hitems := hnone _ rfl
    rwa [shareOf_eq_of_yieldOf h] at hitems
  grows f hf item hitem := by
    cases hf
    rw [shareOf_eq_of_yieldOf h] at hitem
    rcases yieldOf_cases h with ⟨content, -, hitems, -⟩ | ⟨rejection, -, -, hitems, -⟩
    · rw [hitems] at hitem ⊢
      rw [List.mem_singleton.1 hitem]
      exact .here [] []
    · rw [hitems] at hitem
      cases hitem

theorem inFolder (h : Adds o own others items y) (label : String) :
    Adds o (own.map (Placed.within [label])) (others.map (Placed.within [label]))
      (enfolded label items) (y.inFolder label) where
  order := by
    obtain ⟨before, after, rfl, htraced⟩ := h.order
    refine ⟨before.map _, after.map _, List.map_append, ?_⟩
    have hfolder := htraced.inFolder label
    rw [List.map_append, List.map_append] at hfolder
    rcases own with _ | f
    · exact hfolder
    · exact hfolder
  same hnone := by
    have hsame : y.items = items := h.same fun f hf =>
      hnone (f.within [label]) (Option.mem_map_of_mem _ hf)
    rw [Yield.inFolder, hsame, enfolded]
  grows f hf item hitem := by
    obtain ⟨g, hg, rfl⟩ := Option.mem_map.1 hf
    have hgrows := h.grows g hg item hitem
    rw [Yield.inFolder, enfolded]
    rcases hy : y.items with _ | ⟨first, rest⟩
    · exact absurd hy hgrows.ne_nil
    rw [hy] at hgrows
    rcases items with _ | ⟨i, items⟩
    · exact .fresh label [] [] hgrows
    · exact .inside label [] [] (List.cons_ne_nil _ _) hgrows

theorem around {files files' : List (Placed Request)} {a b : Yield} (h : Adds o own others items y)
    (ha : Traced o files a) (hb : Traced o files' b) :
    Adds o own (files ++ others ++ files') (a.items ++ items ++ b.items)
      (a.append (y.append b)) where
  order := by
    obtain ⟨before, after, rfl, htraced⟩ := h.order
    refine ⟨files ++ before, after ++ files', by simp, ?_⟩
    simpa using ha.append (htraced.append hb)
  same hnone := by
    rw [← h.same hnone]
    simp [Yield.append]
  grows f hf item hitem := by
    simpa [Yield.append] using (h.grows f hf item hitem).around a.items b.items

end Adds

/-! ## Filling a gap -/

/-- The computations around a child are those for its siblings, in some order. -/
theorem perm_builds {before after : List (FileTree (Option Request))}
    {first last : List (Building Yield)} {c : Child} {build : Building Yield}
    (hc : c.build? = some build)
    (h : arrange (childList o before ++ c :: childList o after) = first ++ build :: last) :
    (first ++ last).Perm (builds o (before ++ after)) := by
  have hperm := arrange_perm (childList o before ++ c :: childList o after)
  rw [h, List.filterMap_append, List.filterMap_cons_some hc] at hperm
  have hrest := (List.perm_middle.symm.trans (hperm.trans List.perm_middle)).cons_inv
  rw [builds, childList_append, List.filterMap_append]
  exact hrest

/-- What two runs of computations build, put together. -/
theorem exists_parts {first last : List (Building Yield)} {parts : List (List (Placed Request))}
    (h : List.Forall₂ (Builds o) (first ++ last) parts) :
    ∃ before after, parts = before ++ after ∧ List.Forall₂ (Builds o) first before ∧
      List.Forall₂ (Builds o) last after := by
  have hfirst := List.forall₂_take first.length h
  have hlast := List.forall₂_drop first.length h
  rw [List.take_left] at hfirst
  rw [List.drop_left] at hlast
  exact ⟨_, _, (List.take_append_drop _ _).symm, hfirst, hlast⟩

/-- What is built around a request that may be there. -/
theorem adds_file {before after : List (FileTree (Option Request))} (name path : String)
    (h : Handled o (before ++ after)) :
    ∃ others items, others.Perm (requestsIn (before ++ after)) ∧
      ∀ content : Option Request, (∀ r ∈ content, ∃ y, yieldOf o path r = .ok y) →
        ∃ y, Ends (runAll (arrange (childList o (before ++ .file name path content :: after))))
            (.ok y) ∧
          Adds o (content.map fun r => ⟨[], path, r⟩) others items y := by
  obtain ⟨parts, hparts, hperm⟩ := exists_builds o _ h
  have hnothing : (arrange (childList o before ++ .nothing :: childList o after)).Perm
      (builds o (before ++ after)) := by
    have harrange := arrange_perm (childList o before ++ .nothing :: childList o after)
    rw [List.filterMap_append, List.filterMap_cons] at harrange
    rw [builds, childList_append, List.filterMap_append]
    exact harrange
  obtain ⟨all, hall, hsame⟩ := List.perm_comp_forall₂ hnothing hparts
  obtain ⟨rest, hrest, htraced⟩ := Builds.runAll hall
  refine ⟨all.flatten, rest.items, hsame.flatten.trans hperm, fun content hcontent => ?_⟩
  rw [childList_append]
  rcases content with _ | r
  · exact ⟨rest, hrest, .of_traced htraced⟩
  · obtain ⟨y, hy⟩ := hcontent r rfl
    have hends := buildRequest_ends o path r
    rw [hy] at hends
    obtain ⟨first, last, hwithout, hwith⟩ :=
      exists_arrange_request ⟨r.metadata.seq, name⟩ (childList o before) (childList o after)
    rw [hwithout] at hall hrest
    obtain ⟨p, p', rfl, hfirst, hlast⟩ := exists_parts hall
    obtain ⟨a, b, ha, hb, hrun, hrunWith⟩ := exists_runAll_middle hfirst hlast
    cases hrest.unique hrun
    refine ⟨a.append (y.append b), ?_, ?_⟩
    · rw [childList, child, hwith]
      exact hrunWith _ _ hends
    · have hadds := (Adds.request hy).around ha hb
      rwa [List.append_nil, List.append_nil, ← List.flatten_append] at hadds

/-- What is built around a folder with a gap. -/
theorem adds_folder {before after : List (FileTree (Option Request))} (name path : String)
    (shown : Option String) (gap : Gap (Option Request)) (h : Handled o (before ++ after))
    {others : List (Placed Request)} {items : List Item}
    {P : Option Request → Prop} {own : Option Request → Option (Placed Request)}
    (hgap : ∀ content, P content →
      ∃ y, Ends (runAll (arrange (childList o (gap.fill content)))) (.ok y) ∧
        Adds o (own content) others items y) :
    ∃ others' items', others'.Perm (requestsIn (before ++ after) ++
        others.map (Placed.within [shownAs name shown])) ∧
      ∀ content, P content → ∃ y,
        Ends (runAll (arrange (childList o
          (before ++ .folder name path shown (gap.fill content) :: after)))) (.ok y) ∧
        Adds o ((own content).map (Placed.within [shownAs name shown])) others' items' y := by
  obtain ⟨parts, hparts, hperm⟩ := exists_builds o _ h
  obtain ⟨first, last, hwith⟩ :=
    exists_arrange_folder name (childList o before) (childList o after)
  have haround : (first ++ last).Perm (builds o (before ++ after)) :=
    perm_builds rfl (hwith (pure .empty))
  obtain ⟨all, hall, hsame⟩ := List.perm_comp_forall₂ haround hparts
  obtain ⟨p, p', rfl, hfirst, hlast⟩ := exists_parts hall
  obtain ⟨a, b, ha, hb, -, hrun⟩ := exists_runAll_middle hfirst hlast
  refine ⟨p.flatten ++ others.map (Placed.within [shownAs name shown]) ++ p'.flatten,
    a.items ++ enfolded (shownAs name shown) items ++ b.items, ?_, fun content hcontent => ?_⟩
  · rw [List.append_assoc]
    refine (List.perm_append_comm.append_left _).trans ?_
    rw [← List.append_assoc, ← List.flatten_append]
    exact (hsame.flatten.trans hperm).append_right _
  · obtain ⟨y, hends, hadds⟩ := hgap content hcontent
    refine ⟨_, ?_, (hadds.inFolder (shownAs name shown)).around ha hb⟩
    rw [childList_append, childList, child, hwith, FileTree.shownName_folder]
    exact hrun _ _ (inFolder_ends _ hends)

/-- Whatever a gap is filled with, it is put between what comes of the other files. -/
theorem adds_gap :
    ∀ gap : Gap (Option Request), Handled o (gap.fill none) →
      ∃ others items, others.Perm (requestsIn (gap.fill none)) ∧
        ∀ content : Option Request,
          (∀ r ∈ content, ∃ y, yieldOf o (gap.place r).path r = .ok y) →
          ∃ y, Ends (runAll (arrange (childList o (gap.fill content)))) (.ok y) ∧
            Adds o (content.map gap.place) others items y
  | .file before name path after, h => by
    have haround : Handled o (before ++ after) := by
      rw [Gap.fill, Handled, FileTree.requestsIn_append, FileTree.requestsIn_file] at h
      rw [Handled, FileTree.requestsIn_append]
      exact h
    obtain ⟨others, items, hperm, hfill⟩ := adds_file name path haround
    refine ⟨others, items, ?_, hfill⟩
    rw [Gap.fill, FileTree.requestsIn_append, FileTree.requestsIn_file]
    rw [FileTree.requestsIn_append] at hperm
    exact hperm
  | .folder before name path shown gap after, h => by
    have hbefore := h.of_append.1
    have hrest := h.of_append.2
    have haround : Handled o (before ++ after) := by
      rw [Handled, FileTree.requestsIn_append, List.forall_mem_append]
      exact ⟨hbefore, hrest.of_cons⟩
    obtain ⟨others, items, hperm, hfill⟩ := adds_gap gap hrest.of_folder
    obtain ⟨others', items', hperm', hfill'⟩ := adds_folder name path shown gap haround hfill
    refine ⟨others', items', hperm'.trans ?_, fun content hcontent => ?_⟩
    · rw [Gap.fill, FileTree.requestsIn_append, FileTree.requestsIn_append,
        FileTree.requestsIn_folder, List.append_assoc]
      exact (List.perm_append_comm.trans ((hperm.map _).append_right _)).append_left _
    · obtain ⟨y, hends, hadds⟩ := hfill' content hcontent
      rw [Option.map_map] at hadds
      exact ⟨y, hends, hadds⟩

/-! ## Two runs -/

section

variable {strategy : Script.Strategy} {accept : Json → Except Schema.Rejection Json}

/-- A request whose address can be taken apart is built or left out. -/
theorem exists_yieldOf (path : String) {r : Request}
    (h : ∃ url, Url.ofText r.url.toList = .ok url) :
    ∃ y, yieldOf ⟨strategy, accept, true⟩ path r = .ok y := by
  obtain ⟨url, hurl⟩ := h
  rcases hyield : yieldOf ⟨strategy, accept, true⟩ path r with fault | y
  · cases (yieldOf_eq_error hurl hyield).1
  · exact ⟨y, rfl⟩

/-- No request affects what comes of another.  Two trees that differ in what one file holds, be it
a request or none, are built from the same other files in the same order, each of which has the same
leaves, in the same folders, the same warnings and the same failure.  What comes of the file itself
is put between them, and a folder is only there for it when nothing else is in that folder. -/
theorem buildTree_independent (strategy : Script.Strategy)
    (accept : Json → Except Schema.Rejection Json) (name path : String) (shown : Option String)
    (gap : Gap (Option Request))
    (haddress : ∀ f ∈ requestsIn (gap.fill none), ∃ url, Url.ofText f.content.url.toList = .ok url) :
    ∃ others items, others.Perm (requestsIn (gap.fill none)) ∧
      ∀ (content : Option Request) (entries : List Log.Entry),
        (∀ r ∈ content, ∃ url, Url.ofText r.url.toList = .ok url) →
        ∃ y reported,
          ((buildTree ⟨strategy, accept, true⟩
            (.folder name path shown (gap.fill content))).run.run entries).run =
              (.ok y, reported) ∧
          Adds ⟨strategy, accept, true⟩ (content.map gap.place) others items y := by
  have hothers : Handled ⟨strategy, accept, true⟩ (gap.fill none) := fun f hf =>
    exists_yieldOf f.path (haddress f hf)
  obtain ⟨others, items, hperm, hfill⟩ := adds_gap gap hothers
  refine ⟨others, items, hperm, fun content entries hcontent => ?_⟩
  obtain ⟨y, hends, hadds⟩ := hfill content fun r hr => exists_yieldOf _ (hcontent r hr)
  exact ⟨y, _, Prod.ext (hends entries) rfl, hadds⟩

end

/-- The tree of `pingTree`, with the file in its folder left open. -/
def pingGap : Gap (Option Request) :=
  .folder [.file "ping.bru" "api/ping.bru" (some (pingRequest "Ping")),
      .file "broken.bru" "api/broken.bru" none]
    "old" "api/old" (some "Old") (.file [] "pong.bru" "api/old/pong.bru" []) []

theorem buildTree_independent_ping :
    ∃ others items, others.Perm (requestsIn (pingGap.fill none)) ∧
      (∃ y reported,
        ((buildTree (pingOptions true) (.folder "api" "api" none
          (pingGap.fill (some (pingRequest "Ping"))))).run.run []).run = (.ok y, reported) ∧
        Adds (pingOptions true) (some (pingGap.place (pingRequest "Ping"))) others items y) ∧
      ∃ y reported,
        ((buildTree (pingOptions true) (.folder "api" "api" none
          (pingGap.fill none))).run.run []).run = (.ok y, reported) ∧
        Adds (pingOptions true) none others items y := by
  have hurl : Url.ofText (pingRequest "Ping").url.toList =
      .ok (Url.splitPlainly (pingRequest "Ping").url.toList) := by decide +kernel
  have hrequests : requestsIn (pingGap.fill none) =
      [⟨[], "api/ping.bru", pingRequest "Ping"⟩] := rfl
  obtain ⟨others, items, hperm, hfill⟩ :=
    buildTree_independent .textual (pingOptions true).accept "api" "api" none pingGap (by
      rw [hrequests]
      exact List.forall_mem_singleton.2 ⟨_, hurl⟩)
  refine ⟨others, items, hperm, hfill (some (pingRequest "Ping")) [] ?_, hfill none [] ?_⟩
  · intro r hr
    cases hr
    exact ⟨_, hurl⟩
  · intro r hr
    cases hr

end Collection

end Courier
