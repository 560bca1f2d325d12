import Courier.Collection.Discovery
import Courier.Proofs.Files.Disk
import Courier.Proofs.Files.Path
import Mathlib.Data.List.Nodup
import Mathlib.Tactic.Common

/-!
# Found documents

The documents below a directory are the ends of ways down from it (`documentsIn_eq_map`).  Where the
names in every directory are distinct (`Entry.Sound`), so are the ways, and with them the paths that
are found (`nodup_documents`).
-/

namespace Courier

open Path (IsName pathTo)

/-! ## Sound disks -/

/-- The names in a directory are distinct, and so on below. -/
inductive Entry.Sound : Entry → Prop
  | file (content : List UInt8) : Sound (.file content)
  | directory {entries : List (String × Entry)} (nodup : (entries.map Prod.fst).Nodup)
      (names : ∀ e ∈ entries, IsName e.1) (below : ∀ e ∈ entries, Sound e.2) :
      Sound (.directory entries)

theorem Entry.Sound.at? {e e' : Entry} {way : List String} (h : e.Sound)
    (hat : e.at? way = some e') : e'.Sound := by
  induction way generalizing e with
  | nil =>
    cases hat
    exact h
  | cons name way ih =>
    obtain ⟨child, hchild, hbelow⟩ := Option.bind_eq_some_iff.1 hat
    cases h with
    | file => cases hchild
    | directory nodup names below =>
      obtain ⟨before, after, rfl, -⟩ := List.lookup_eq_some_iff.1 hchild
      exact ih (below (name, child) (by simp)) hbelow

namespace Discovery

variable {excluded : List String} {directory : String}

/-! ## Ways to documents -/

mutual

/-- The ways to the documents at an entry of some name. -/
def waysAt (excluded : List String) (name : String) : Entry → List (List String)
  | .file _ => if isDocument name then [[name]] else []
  | .directory entries =>
    if isSkipped excluded name then [] else (waysIn excluded entries).map (name :: ·)

/-- The ways to the documents below a directory with these entries. -/
def waysIn (excluded : List String) : List (String × Entry) → List (List String)
  | [] => []
  | (name, entry) :: rest => waysAt excluded name entry ++ waysIn excluded rest

end

mutual

theorem documentsAt_eq_map (excluded : List String) (directory name : String) :
    ∀ entry : Entry, documentsAt excluded name (Path.under directory name) entry =
      (waysAt excluded name entry).map (pathTo directory)
  | .file _ => by
    rw [documentsAt, waysAt]
    split
    · rfl
    · rfl
  | .directory entries => by
    rw [documentsAt, waysAt, documentsIn_eq_map]
    split
    · rfl
    · rw [List.map_map]
      rfl

/-- The documents that are found are the ends of ways. -/
theorem documentsIn_eq_map (excluded : List String) (directory : String) :
    ∀ entries : List (String × Entry), documentsIn excluded directory entries =
      (waysIn excluded entries).map (pathTo directory)
  | [] => by rw [documentsIn, waysIn, List.map_nil]
  | (name, entry) :: rest => by
    rw [documentsIn, waysIn, documentsAt_eq_map, documentsIn_eq_map _ _ rest, List.map_append]

end

theorem mem_waysAt {name : String} {entry : Entry} {way : List String} :
    way ∈ waysAt excluded name entry ↔
      (∃ content, entry = .file content ∧ isDocument name = true ∧ way = [name]) ∨
      ∃ entries rest, entry = .directory entries ∧ isSkipped excluded name = false ∧
        rest ∈ waysIn excluded entries ∧ way = name :: rest := by
  cases entry with
  | file content =>
    rw [waysAt]
    by_cases hdocument : isDocument name = true
    · simp [hdocument]
    · simp [hdocument]
  | directory entries =>
    rw [waysAt]
    by_cases hskipped : isSkipped excluded name = true
    · rw [if_pos hskipped]
      constructor
      · intro h
        cases h
      · intro h
        rcases h with ⟨content, hfile, -, -⟩ | ⟨below, rest, -, hsearched, -, -⟩
        · cases hfile
        · rw [hskipped] at hsearched
          cases hsearched
    · rw [if_neg hskipped, List.mem_map]
      constructor
      · intro h
        obtain ⟨rest, hrest, rfl⟩ := h
        exact .inr ⟨entries, rest, rfl, Bool.eq_false_iff.2 hskipped, hrest, rfl⟩
      · intro h
        rcases h with ⟨content, hfile, -, -⟩ | ⟨below, rest, hbelow, -, hrest, rfl⟩
        · cases hfile
        · cases hbelow
          exact ⟨rest, hrest, rfl⟩

theorem mem_waysIn {entries : List (String × Entry)} {way : List String} :
    way ∈ waysIn excluded entries ↔ ∃ e ∈ entries, way ∈ waysAt excluded e.1 e.2 := by
  induction entries with
  | nil => simp [waysIn]
  | cons e rest ih => simp [waysIn, ih]

/-- A way begins with the name of an entry. -/
theorem head?_of_mem_waysAt {name : String} {entry : Entry} {way : List String}
    (h : way ∈ waysAt excluded name entry) : way.head? = some name := by
  rcases mem_waysAt.1 h with ⟨-, -, -, rfl⟩ | ⟨-, -, -, -, -, rfl⟩ <;> rfl

/-- A way to a document through directories. -/
structure IsWay (way : List String) : Prop where
  names : ∀ name ∈ way, IsName name
  document : ∃ folders name, way = folders ++ [name] ∧ isDocument name = true

theorem IsWay.ne_nil {way : List String} (h : IsWay way) : way ≠ [] := by
  obtain ⟨folders, name, rfl, -⟩ := h.document
  simp

theorem isWay_of_mem_waysIn {entries : List (String × Entry)} {way : List String}
    (hsound : (Entry.directory entries).Sound) (h : way ∈ waysIn excluded entries) : IsWay way := by
  induction way generalizing entries with
  | nil =>
    obtain ⟨e, -, hway⟩ := mem_waysIn.1 h
    cases head?_of_mem_waysAt hway
  | cons name way ih =>
    obtain ⟨⟨name', entry⟩, he, hway⟩ := mem_waysIn.1 h
    cases hsound with
    | directory nodup names below =>
      rcases mem_waysAt.1 hway with ⟨_, -, hdocument, heq⟩ | ⟨entries, rest, rfl, -, hrest, heq⟩
      · cases heq
        exact ⟨by simpa using names _ he, [], _, rfl, hdocument⟩
      · cases heq
        obtain ⟨hnames, folders, last, rfl, hdocument⟩ := ih (below _ he) hrest
        exact ⟨List.forall_mem_cons.2 ⟨names _ he, hnames⟩, _ :: folders, last, rfl, hdocument⟩

mutual

theorem nodup_waysAt (excluded : List String) (name : String) :
    ∀ entry : Entry, entry.Sound → (waysAt excluded name entry).Nodup
  | .file _, _ => by
    rw [waysAt]
    split
    · exact List.nodup_singleton _
    · exact List.nodup_nil
  | .directory entries, h => by
    rw [waysAt]
    split
    · exact List.nodup_nil
    · cases h with
      | directory nodup _ below =>
        exact (nodup_waysIn excluded entries nodup below).map (List.cons_injective)

/-- No way leads to two documents. -/
theorem nodup_waysIn (excluded : List String) :
    ∀ entries : List (String × Entry), (entries.map Prod.fst).Nodup →
      (∀ e ∈ entries, e.2.Sound) → (waysIn excluded entries).Nodup
  | [], _, _ => by
    rw [waysIn]
    exact List.nodup_nil
  | (name, entry) :: rest, hnodup, hsound => by
    rw [List.map_cons, List.nodup_cons] at hnodup
    rw [List.forall_mem_cons] at hsound
    rw [waysIn, List.nodup_append]
    refine ⟨nodup_waysAt excluded name entry hsound.1,
      nodup_waysIn excluded rest hnodup.2 hsound.2, ?_⟩
    -- A way of one entry begins with its name, which no other entry has.
    rintro way hway _ hrest rfl
    obtain ⟨e, he, hway'⟩ := mem_waysIn.1 hrest
    have hname : e.1 = name :=
      Option.some.inj ((head?_of_mem_waysAt hway').symm.trans (head?_of_mem_waysAt hway))
    exact hnodup.1 (List.mem_map.2 ⟨e, he, hname⟩)

end

/-! ## Documents on a disk -/

variable {d : Disk} {found : List String}

theorem sorted_perm (paths : List String) : (sorted paths).Perm paths := List.mergeSort_perm _ _

/-- What is found in a directory are the ends of distinct ways down from it. -/
theorem documents_eq_ok (hsound : d.root.Sound) (h : documents d excluded directory = .ok found) :
    ∃ ways : List (List String),
      found.Perm (ways.map (pathTo directory)) ∧ ways.Nodup ∧ ∀ way ∈ ways, IsWay way := by
  rw [documents] at h
  split at h
  · rename_i entries hfind
    cases h
    obtain ⟨-, way, -, hat⟩ := Disk.find_eq_ok hfind
    have hentries := hsound.at? hat
    refine ⟨waysIn excluded entries, ?_, ?_, fun way hway =>
      isWay_of_mem_waysIn hentries hway⟩
    · rw [← documentsIn_eq_map]
      exact sorted_perm _
    · cases hentries with
      | directory nodup _ below => exact nodup_waysIn excluded entries nodup below
  · cases h

/-- No document is found twice. -/
theorem nodup_documents (hsound : d.root.Sound) (h : documents d excluded directory = .ok found) :
    found.Nodup := by
  obtain ⟨ways, hperm, hnodup, hways⟩ := documents_eq_ok hsound h
  refine hperm.nodup_iff.2 (hnodup.map_on ?_)
  intro way hway way' hway' heq
  exact Path.pathTo_injective (hways way hway).names (hways way' hway').names heq

/-- A way ends in the name of a document. -/
theorem exists_document_of_mem_waysIn {entries : List (String × Entry)} {way : List String}
    (h : way ∈ waysIn excluded entries) :
    ∃ folders name, way = folders ++ [name] ∧ isDocument name = true := by
  induction way generalizing entries with
  | nil =>
    obtain ⟨e, -, hway⟩ := mem_waysIn.1 h
    cases head?_of_mem_waysAt hway
  | cons name way ih =>
    obtain ⟨e, -, hway⟩ := mem_waysIn.1 h
    rcases mem_waysAt.1 hway with ⟨-, -, hdocument, heq⟩ | ⟨below, rest, -, -, hrest, heq⟩
    · exact ⟨[], e.1, heq, hdocument⟩
    · cases heq
      obtain ⟨folders, last, rfl, hdocument⟩ := ih hrest
      exact ⟨e.1 :: folders, last, rfl, hdocument⟩

/-- What is found has the extension of documents, whatever the directories are called. -/
theorem hasExtension_of_mem_documents (h : documents d excluded directory = .ok found)
    {path : String} (hpath : path ∈ found) : hasExtension path = true := by
  rw [documents] at h
  split at h
  · cases h
    rw [(sorted_perm _).mem_iff, documentsIn_eq_map] at hpath
    obtain ⟨way, hway, rfl⟩ := List.mem_map.1 hpath
    obtain ⟨folders, name, rfl, hdocument⟩ := exists_document_of_mem_waysIn hway
    rw [isDocument, Bool.and_eq_true, Bool.and_eq_true] at hdocument
    have hname := List.isSuffixOf_iff_suffix.1 hdocument.1.1
    rw [Path.pathTo_append, hasExtension, List.isSuffixOf_iff_suffix]
    change extension.toList <:+ (Path.under (pathTo directory folders) name).toList
    rw [Path.toList_under]
    exact hname.trans (Path.suffix_join _ _)
  · cases h

theorem isAbsolute_cwdPath (d : Disk) : Path.isAbsolute d.cwdPath = true := rfl

end Discovery

end Courier
