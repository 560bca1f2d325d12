import Courier.Proofs.Collection.Order
import Courier.Proofs.Files.Discovery

/-!
# What a search finds

The search for documents goes down the tree of a directory and sorts the paths that it found.  This
module says which files these are without the search.

* `Disk.find_pathTo`: the path of a way down from a directory leads to what stands at the end of the
  way.
* `mem_waysIn_iff`: a search finds the ways that end in the name of a request (`IsRequestName`) and
  pass through directories that are not passed over (`IsSearched`), all of them and no others.
* `documents_exact`: the paths of these files, each once, in the order of their code points.
-/

namespace Courier

open Path (IsName pathTo)

/-! ## Paths that follow a way -/

theorem Entry.Sound.isName_of_at? {e e' : Entry} {way : List String} (h : e.Sound)
    (hat : e.at? way = some e') : ∀ name ∈ way, IsName name := by
  induction way generalizing e with
  | nil => simp
  | cons name way ih =>
    obtain ⟨child, hchild, hbelow⟩ := Option.bind_eq_some_iff.1 hat
    cases h with
    | file => cases hchild
    | directory nodup names below =>
      obtain ⟨before, after, rfl, -⟩ := List.lookup_eq_some_iff.1 hchild
      have hmem : (name, child) ∈ before ++ (name, child) :: after :=
        List.mem_append_right before List.mem_cons_self
      exact List.forall_mem_cons.2 ⟨names _ hmem, ih (below _ hmem) hbelow⟩

namespace Disk

variable {d : Disk} {way target : List String} {directory : String}

/-- Components lead on from where others have led. -/
theorem leads_append_iff {components more : List Path.Chars} :
    d.Leads way (components ++ more) target ↔
      ∃ middle, d.Leads way components middle ∧ d.Leads middle more target := by
  constructor
  · intro h
    induction components generalizing way with
    | nil => exact ⟨way, .here way, h⟩
    | cons component components ih =>
      cases h with
      | stay hdirectory stays further =>
        obtain ⟨middle, hfirst, hmore⟩ := ih further
        exact ⟨middle, .stay hdirectory stays hfirst, hmore⟩
      | up hdirectory further =>
        obtain ⟨middle, hfirst, hmore⟩ := ih further
        exact ⟨middle, .up hdirectory hfirst, hmore⟩
      | down hdirectory goes goes_down further =>
        obtain ⟨middle, hfirst, hmore⟩ := ih further
        exact ⟨middle, .down hdirectory goes goes_down hfirst, hmore⟩
  · intro h
    obtain ⟨middle, hfirst, hmore⟩ := h
    induction hfirst with
    | here => exact hmore
    | stay hdirectory stays _ ih => exact .stay hdirectory stays (ih hmore)
    | up hdirectory _ ih => exact .up hdirectory (ih hmore)
    | down hdirectory goes goes_down _ ih => exact .down hdirectory goes goes_down (ih hmore)

/-- A name below a path takes the place of the empty component that a slash at its end leaves. -/
theorem splitOn_under (directory : String) {name : String} (hname : IsName name)
    (hne : directory.toList ≠ []) :
    ∃ before after, Text.splitOn '/' directory.toList = before ++ after ∧
      (after = [] ∨ after = [[]]) ∧
      Text.splitOn '/' (Path.under directory name).toList = before ++ [name.toList] := by
  have hsplit := Text.splitOn_of_not_mem hname.slash_not_mem
  rw [Path.toList_under,
    Path.join_of_relative (Path.isAbsolute_of_slash_not_mem hname.slash_not_mem), Path.gap]
  by_cases hlast : directory.toList.getLast? = some '/'
  · obtain ⟨before, hbefore⟩ := List.getLast?_eq_some_iff.1 hlast
    refine ⟨Text.splitOn '/' before, [[]], ?_, .inr rfl, ?_⟩
    · rw [hbefore, Text.splitOn_append_sep]
      rfl
    · simp [hbefore, Text.splitOn_append_sep, hsplit]
  · refine ⟨Text.splitOn '/' directory.toList, [], by simp, .inl rfl, ?_⟩
    simp [hlast, hne, Text.splitOn_append_sep, hsplit]

theorem find_of_locate {path : Path.Chars} {e : Entry} (hlocate : d.locate path = .ok way)
    (hat : d.root.at? way = some e) : d.find path = .ok e := by
  rw [find, Outcome.bind_eq_ok]
  exact ⟨way, hlocate, by rw [hat]⟩

theorem find_under {name : String} {entries : List (String × Entry)} {e : Entry}
    (hname : IsName name) (h : d.find directory.toList = .ok (.directory entries))
    (hchild : entries.lookup name = some e) : d.find (Path.under directory name).toList = .ok e := by
  obtain ⟨hne, way, hlocate, hat⟩ := find_eq_ok h
  obtain ⟨-, hleads⟩ := locate_eq_ok_iff.1 hlocate
  obtain ⟨before, after, hsplit, hafter, hunder⟩ := splitOn_under directory hname hne
  -- Whether the path ends in a slash or not, its components lead to the directory.
  have hbefore : d.Leads (if Path.isAbsolute directory.toList then [] else d.cwd) before way := by
    rw [hsplit] at hleads
    rcases hafter with rfl | rfl
    · rwa [List.append_nil] at hleads
    · obtain ⟨middle, hfirst, hmore⟩ := leads_append_iff.1 hleads
      cases hmore with
      | stay _ _ further =>
        cases further
        exact hfirst
      | down _ goes _ _ => exact absurd (.inl rfl) goes
  have hlast : d.Leads way [name.toList] (way ++ [name]) := by
    have hnamed : way ++ [name] = way ++ [String.ofList name.toList] := by rw [String.ofList_toList]
    rw [hnamed]
    exact .down ⟨entries, hat⟩ (not_or.2 ⟨hname.ne_nil, hname.ne_dot⟩) hname.ne_dots (.here _)
  have habsolute : Path.isAbsolute (Path.under directory name).toList =
      Path.isAbsolute directory.toList := by
    rw [Path.toList_under,
      Path.join_of_relative (Path.isAbsolute_of_slash_not_mem hname.slash_not_mem),
      List.append_assoc, Path.isAbsolute_append hne]
  have hlocate : d.locate (Path.under directory name).toList = .ok (way ++ [name]) := by
    refine locate_eq_ok_iff.2 ⟨?_, ?_⟩
    · rw [Path.toList_under]
      intro hnil
      have hsuffix := Path.suffix_join directory.toList name.toList
      rw [hnil] at hsuffix
      exact hname.ne_nil (List.suffix_nil.1 hsuffix)
    · rw [habsolute, hunder]
      exact leads_append_iff.2 ⟨way, hbefore, hlast⟩
  apply find_of_locate hlocate
  rw [Entry.at?_append, hat, Option.bind_some, Entry.at?_cons_directory, hchild]
  rfl

/-- The path of a way down from a directory leads to what stands at the end of the way. -/
theorem find_pathTo {e e' : Entry} (hway : ∀ name ∈ way, IsName name)
    (h : d.find directory.toList = .ok e) (hat : e.at? way = some e') :
    d.find (pathTo directory way).toList = .ok e' := by
  induction way generalizing directory e with
  | nil =>
    cases hat
    exact h
  | cons name way ih =>
    rcases e with content | entries
    · cases hat
    · obtain ⟨child, hchild, hbelow⟩ := Option.bind_eq_some_iff.1 hat
      have hnext := find_under (hway name List.mem_cons_self) h hchild
      exact ih (fun n hn => hway n (List.mem_cons_of_mem _ hn)) hnext hbelow

end Disk

/-! ## Names -/

namespace Discovery

/-- The name of a document that holds a request. -/
structure IsRequestName (name : String) : Prop where
  extension : ".bru".toList <:+ name.toList
  shown : name.toList.head? ≠ some '.'
  ne_collection : name ≠ "collection.bru"
  ne_folder : name ≠ "folder.bru"

/-- The name of a directory that is searched. -/
structure IsSearched (excluded : List String) (name : String) : Prop where
  shown : name.toList.head? ≠ some '.'
  ne_modules : name ≠ "node_modules"
  ne_cache : name ≠ "__pycache__"
  not_excluded : name ∉ excluded

variable {excluded : List String} {entries : List (String × Entry)} {way : List String}
  {directory : String} {d : Disk}

theorem isDocument_iff {name : String} : isDocument name = true ↔ IsRequestName name := by
  simp only [isDocument, hasExtension, isHidden, descriptions, folderDocument, Bool.and_eq_true,
    Bool.not_eq_true', beq_eq_false_iff_ne, List.isSuffixOf_iff_suffix, List.contains_eq_mem,
    decide_eq_false_iff_not, List.mem_cons, List.not_mem_nil, or_false, not_or]
  constructor
  · intro h
    exact ⟨h.1.1, h.1.2, h.2.1, h.2.2⟩
  · intro h
    exact ⟨⟨h.extension, h.shown⟩, h.ne_collection, h.ne_folder⟩

theorem isSkipped_eq_false_iff {name : String} :
    isSkipped excluded name = false ↔ IsSearched excluded name := by
  simp only [isSkipped, isHidden, skippedNames, Bool.or_eq_false_iff, beq_eq_false_iff_ne,
    List.contains_eq_mem, decide_eq_false_iff_not, List.mem_cons, List.not_mem_nil, or_false,
    not_or]
  constructor
  · intro h
    exact ⟨h.1.1, h.1.2.1, h.1.2.2, h.2⟩
  · intro h
    exact ⟨⟨h.shown, h.ne_modules, h.ne_cache⟩, h.not_excluded⟩

/-! ## Ways -/

theorem lookup_eq_some_iff_mem (hnodup : (entries.map Prod.fst).Nodup) {name : String}
    {entry : Entry} : entries.lookup name = some entry ↔ (name, entry) ∈ entries := by
  constructor
  · intro h
    obtain ⟨before, after, rfl, -⟩ := List.lookup_eq_some_iff.1 h
    exact List.mem_append_right before List.mem_cons_self
  · intro h
    obtain ⟨before, after, rfl⟩ := List.append_of_mem h
    refine List.lookup_eq_some_iff.2 ⟨before, after, rfl, ?_⟩
    intro other hother
    rw [List.map_append, List.map_cons, List.nodup_append] at hnodup
    have hne : other.1 ≠ name :=
      hnodup.2.2 other.1 (List.mem_map_of_mem hother) name List.mem_cons_self
    exact bne_iff_ne.2 hne.symm

/-- A search finds the ways to files with the name of a request, through directories that are
searched. -/
theorem mem_waysIn_iff (hsound : (Entry.directory entries).Sound) :
    way ∈ waysIn excluded entries ↔
      ∃ folders name content, way = folders ++ [name] ∧
        (Entry.directory entries).at? way = some (.file content) ∧
        IsRequestName name ∧ ∀ folder ∈ folders, IsSearched excluded folder := by
  induction way generalizing entries with
  | nil =>
    constructor
    · intro h
      obtain ⟨e, -, hway⟩ := mem_waysIn.1 h
      cases head?_of_mem_waysAt hway
    · intro h
      obtain ⟨folders, name, content, hnil, -⟩ := h
      simp at hnil
  | cons first way ih =>
    cases hsound with
    | directory nodup names below =>
    rw [mem_waysIn]
    constructor
    · intro h
      obtain ⟨⟨name, entry⟩, he, hway⟩ := h
      have hlookup := (lookup_eq_some_iff_mem nodup).2 he
      rcases mem_waysAt.1 hway with ⟨content, hfile, hdocument, heq⟩ |
        ⟨inner, rest, hinner, hsearched, hrest, heq⟩
      · dsimp only at hfile hdocument
        cases heq
        subst hfile
        refine ⟨[], _, content, rfl, ?_, isDocument_iff.1 hdocument, by simp⟩
        rw [Entry.at?_cons_directory, hlookup]
        rfl
      · dsimp only at hinner hsearched
        cases heq
        subst hinner
        obtain ⟨folders, last, content, hsplit, hat, hname, hfolders⟩ := (ih (below _ he)).1 hrest
        refine ⟨_ :: folders, last, content, by rw [hsplit]; rfl, ?_, hname, ?_⟩
        · rw [Entry.at?_cons_directory, hlookup]
          exact hat
        · exact List.forall_mem_cons.2 ⟨isSkipped_eq_false_iff.1 hsearched, hfolders⟩
    · intro h
      obtain ⟨folders, name, content, hsplit, hat, hname, hfolders⟩ := h
      rw [Entry.at?_cons_directory] at hat
      obtain ⟨entry, hlookup, hat⟩ := Option.bind_eq_some_iff.1 hat
      have he := (lookup_eq_some_iff_mem nodup).1 hlookup
      refine ⟨(first, entry), he, mem_waysAt.2 ?_⟩
      cases folders with
      | nil =>
        cases hsplit
        exact .inl ⟨content, Option.some.inj hat, isDocument_iff.2 hname, rfl⟩
      | cons folder folders =>
        cases hsplit
        rw [List.forall_mem_cons] at hfolders
        cases entry with
        | file other =>
          cases folders with
          | nil => cases hat
          | cons next folders => cases hat
        | directory inner =>
          refine .inr ⟨inner, folders ++ [name], rfl, isSkipped_eq_false_iff.2 hfolders.1, ?_, rfl⟩
          exact (ih (below _ he)).2 ⟨folders, name, content, rfl, hat, hname, hfolders.2⟩

/-! ## Paths that are found -/

/-- Different paths are sorted strictly by their characters. -/
theorem sorted_pairwise {paths : List String} (hnodup : paths.Nodup) :
    (sorted paths).Pairwise fun a b => a.toList < b.toList := by
  refine Collection.pairwise_mergeSort_of_nodup Collection.nameLE_trans Collection.nameLE_total
    id id (by simpa using hnodup) ?_
  intro a b hle hne
  by_contra hlt
  have hge : Collection.nameLE b a = true := decide_eq_true (String.not_lt.1 hlt)
  exact hne (Collection.nameLE_antisymm a b hle hge)

/-- A search finds exactly the files at any depth that have the name of a request and lie in
directories that are searched, whatever the directory is called where it starts.  It finds each of
them once, and gives their paths in the order of their characters. -/
theorem documents_exact (hsound : d.root.Sound) (excluded : List String)
    (hfind : d.find directory.toList = .ok (.directory entries)) :
    ∃ found, documents d excluded directory = .ok found ∧ found.Nodup ∧
      found.Pairwise (fun a b => a.toList < b.toList) ∧
      (∀ path ∈ found, ∃ way content, path = pathTo directory way ∧
        (Entry.directory entries).at? way = some (.file content) ∧
        d.find path.toList = .ok (.file content)) ∧
      ∀ folders name content,
        (Entry.directory entries).at? (folders ++ [name]) = some (.file content) →
        (pathTo directory (folders ++ [name]) ∈ found ↔
          IsRequestName name ∧ ∀ folder ∈ folders, IsSearched excluded folder) := by
  obtain ⟨-, start, -, hstart⟩ := Disk.find_eq_ok hfind
  have hentries := hsound.at? hstart
  have hfound : documents d excluded directory =
      .ok (sorted (documentsIn excluded directory entries)) := by
    rw [documents, hfind]
  have hmem : ∀ path, path ∈ sorted (documentsIn excluded directory entries) ↔
      ∃ way ∈ waysIn excluded entries, pathTo directory way = path := by
    intro path
    rw [(sorted_perm _).mem_iff, documentsIn_eq_map, List.mem_map]
  have hnodup := nodup_documents hsound hfound
  refine ⟨_, hfound, hnodup, sorted_pairwise ((sorted_perm _).nodup_iff.1 hnodup), ?_, ?_⟩
  · intro path hpath
    obtain ⟨way, hway, rfl⟩ := (hmem path).1 hpath
    obtain ⟨folders, name, content, -, hat, -, -⟩ := (mem_waysIn_iff hentries).1 hway
    exact ⟨way, content, rfl, hat, Disk.find_pathTo (hentries.isName_of_at? hat) hfind hat⟩
  · intro folders name content hat
    have hnames := hentries.isName_of_at? hat
    rw [hmem]
    constructor
    · intro h
      obtain ⟨way, hway, hpath⟩ := h
      obtain ⟨folders', name', content', hsplit, hat', hname, hfolders⟩ :=
        (mem_waysIn_iff hentries).1 hway
      -- A path is found by one way only, so these are the names on the given way.
      have hsame := Path.pathTo_injective (hentries.isName_of_at? hat') hnames hpath
      obtain ⟨rfl, hlast⟩ := List.append_inj' (hsplit.symm.trans hsame) rfl
      cases hlast
      exact ⟨hname, hfolders⟩
    · intro h
      exact ⟨folders ++ [name],
        (mem_waysIn_iff hentries).2 ⟨folders, name, content, rfl, hat, h.1, h.2⟩, rfl⟩

/-- A directory with documents, with others that are no requests, and with directories that are
passed over, one of them further down. -/
def mixedEntries : List (String × Entry) := [
  ("sub", .directory [
    ("y.bru", .file []),
    (".git", .directory [("in", .directory [("z.bru", .file [])])])]),
  ("sub-a", .directory [("y.bru", .file []), ("folder.bru", .file [])]),
  ("old", .directory [("x.bru", .file [])]),
  ("b.bru", .file []),
  (".h.bru", .file []),
  ("notes.txt", .file [])]

/-- The directory under names that are passed over below it. -/
def mixedDisk : Disk where
  root := .directory [(".work", .directory [("node_modules", .directory mixedEntries)])]
  cwd := []

theorem sound_mixedDisk : mixedDisk.root.Sound :=
  .directory (by decide) (by decide) <| List.forall_mem_singleton.2 <|
  .directory (by decide) (by decide) <| List.forall_mem_singleton.2 <|
  .directory (by decide) (by decide) <| List.forall_mem_cons.2
    ⟨.directory (by decide) (by decide) <| List.forall_mem_cons.2
      ⟨.file _, List.forall_mem_singleton.2 <|
        .directory (by decide) (by decide) <| List.forall_mem_singleton.2 <|
        .directory (by decide) (by decide) <| List.forall_mem_singleton.2 (.file _)⟩,
    List.forall_mem_cons.2
    ⟨.directory (by decide) (by decide) <|
      List.forall_mem_cons.2 ⟨.file _, List.forall_mem_singleton.2 (.file _)⟩,
    List.forall_mem_cons.2
    ⟨.directory (by decide) (by decide) <| List.forall_mem_singleton.2 (.file _),
    List.forall_mem_cons.2 ⟨.file _, List.forall_mem_cons.2 ⟨.file _,
      List.forall_mem_singleton.2 (.file _)⟩⟩⟩⟩⟩

/-- The start may have any name, and a file below a directory that is passed over is not found. -/
theorem documents_exact_mixed :
    ∃ found, documents mixedDisk ["old", "node_modules"] ".work/node_modules/" = .ok found ∧
      found = [".work/node_modules/b.bru", ".work/node_modules/sub-a/y.bru",
        ".work/node_modules/sub/y.bru"] ∧
      (∀ path ∈ found, ∃ content, mixedDisk.find path.toList = .ok (.file content)) ∧
      pathTo ".work/node_modules/" ["sub", ".git", "in", "z.bru"] ∉ found := by
  have hfind : mixedDisk.find ".work/node_modules/".toList = .ok (.directory mixedEntries) := by rfl
  obtain ⟨found, hfound, -, hsorted, hfiles, hexact⟩ :=
    documents_exact sound_mixedDisk ["old", "node_modules"] hfind
  refine ⟨found, hfound, ?_, ?_, ?_⟩
  · -- The search comes upon the same paths in the order of the directory.
    have hpaths : found.Perm [".work/node_modules/sub/y.bru", ".work/node_modules/sub-a/y.bru",
        ".work/node_modules/b.bru"] := by
      have hsort : found =
          sorted (documentsIn ["old", "node_modules"] ".work/node_modules/" mixedEntries) := by
        rw [documents, hfind] at hfound
        exact (Except.ok.inj hfound).symm
      rw [hsort]
      exact sorted_perm _
    refine List.Perm.eq_of_pairwise ?_ hsorted (by decide) (hpaths.trans (by decide))
    intro a b _ _ hab hba
    exact absurd hba (List.lt_asymm hab)
  · intro path hpath
    obtain ⟨way, content, -, -, hread⟩ := hfiles path hpath
    exact ⟨content, hread⟩
  · intro hmem
    have hsearched := ((hexact ["sub", ".git", "in"] "z.bru" [] rfl).1 hmem).2 ".git" (by decide)
    exact hsearched.shown (by decide)

end Discovery

end Courier
