import Courier.Proofs.Collection.Mirror
import Courier.Proofs.Collection.Validity
import Courier.Proofs.Job.Running
import Mathlib.Tactic.Common

/-!
# Accounts of a batch

A directory is converted in phases, each of which passes on what it can use and names what it
cannot.  Whenever this comes to an end, the report is right: every document that was found is either
a failure or has become exactly one leaf of the collection, which is the collection that the written
file holds (`convertDirectory_accounts`).

* `Settled.exists_origins`: building leaves out no request that has been read.
* `keeps_collect`: the collection and the failures of documents.
* The steps of the whole job are taken off one by one, by `runFrom_bind_eq_ok`.
-/

namespace Courier

open Collection (Accepted Built Item Leaf Rejected Settled itemOf itemsJson leavesIn
  leavesOfCollection)
open Discovery (IsWay)
open Disk (IsDocument SameDocuments)
open Outcome (mapError_eq_ok)
open FileTree (Placed shownOn)
open Path (pathTo)
open Script (Strategy)

namespace Collection

/-- The options of a batch. -/
def batchOptions (strategy : Strategy) : Options := ⟨strategy, validateItem, true⟩

theorem not_rejected {strategy : Strategy} {r : Request} {rejection : Schema.Rejection} :
    ¬ Rejected (batchOptions strategy) r rejection := by
  rintro ⟨built, hbuilt, hreject⟩
  have hvalid := validateItem_of_normal (normal_itemOf hbuilt)
  rw [show (batchOptions strategy).accept = validateItem from rfl, hvalid] at hreject
  cases hreject

/-- A request of a batch that is accepted is left as it is. -/
theorem Accepted.eq_item {strategy : Strategy} {r : Request} {content : Json}
    (h : Accepted (batchOptions strategy) r content) :
    ∃ built, itemOf strategy r.metadata.name r = .ok built ∧ content = built.item := by
  obtain ⟨built, hbuilt, haccept⟩ := h
  refine ⟨built, hbuilt, ?_⟩
  have hvalid := validateItem_of_normal (normal_itemOf hbuilt)
  rw [show (batchOptions strategy).accept = validateItem from rfl, hvalid] at haccept
  exact (Except.ok.inj haccept).symm

/-- Of the files in a batch, those with a request are the origins of the leaves. -/
theorem Settled.exists_origins {strategy : Strategy} {files : List (Placed (Option Request))}
    {leaves : List Leaf} {failures : List Failure}
    (h : Settled (batchOptions strategy) files leaves failures) :
    failures = [] ∧ ∃ origins : List (String × Leaf), origins.map Prod.snd = leaves ∧
      origins.map Prod.fst = (files.filter (·.content.isSome)).map (·.path) ∧
      ∀ origin ∈ origins, ∃ r, ⟨origin.2.folders, origin.1, some r⟩ ∈ files ∧
        Accepted (batchOptions strategy) r origin.2.item := by
  induction h with
  | nil => exact ⟨rfl, [], rfl, rfl, by simp⟩
  | unread folders path _ ih =>
    obtain ⟨rfl, origins, hleaves, hpaths, horigins⟩ := ih
    refine ⟨rfl, origins, hleaves, hpaths, fun origin horigin => ?_⟩
    obtain ⟨r, hmem, haccepted⟩ := horigins origin horigin
    exact ⟨r, List.mem_cons_of_mem _ hmem, haccepted⟩
  | @accepted folders path r content files leaves failures request _ ih =>
    obtain ⟨rfl, origins, rfl, hpaths, horigins⟩ := ih
    refine ⟨rfl, (path, ⟨folders, content⟩) :: origins, rfl, ?_, fun origin horigin => ?_⟩
    · simp [hpaths]
    · rcases List.mem_cons.1 horigin with rfl | horigin
      · exact ⟨r, List.mem_cons_self, request⟩
      · obtain ⟨r', hmem, haccepted⟩ := horigins origin horigin
        exact ⟨r', List.mem_cons_of_mem _ hmem, haccepted⟩
  | rejected folders path request => exact absurd request not_rejected

end Collection

namespace Job

variable {s : Surroundings} {d : Disk} {strategy : Strategy} {directory : String}

/-! ## Documents that have been collected -/

/-- A document has become a leaf: the item of its request, in the folders on the way to it. -/
def Becomes (d : Disk) (strategy : Strategy) (directory path : String) (leaf : Leaf) : Prop :=
  ∃ folders name r built, path = pathTo directory (folders ++ [name]) ∧
    leaf.folders = shownOn d.folderLabel? directory folders ∧ d.request? path = some r ∧
    itemOf strategy r.metadata.name r = .ok built ∧ leaf.item = built.item

/-- Every document is the origin of one leaf or a failure, and there are no other leaves or
failures.  The failures are the documents from which no request can be read. -/
structure Accounted (d : Disk) (strategy : Strategy) (directory : String) (documents : List String)
    (leaves : List Leaf) (failures : List Failure) (origins : List (String × Leaf)) : Prop where
  documents_perm : (origins.map Prod.fst ++ failures.map (·.path)).Perm documents
  leaves_perm : (origins.map Prod.snd).Perm leaves
  becomes : ∀ origin ∈ origins, Becomes d strategy directory origin.1 origin.2
  unread : ∀ failure ∈ failures, d.request? failure.path = none

theorem keeps_arrange (hlog : s.Spares) (root : String) (paths : List String) :
    Keeps s d (arrange root paths) (Returning (· = d.fileTree root paths)) := by
  rw [arrange]
  split
  · refine .throw ?_
    rintro _ ⟨⟩
  · refine .then keeps_disk fun e he => ?_
    obtain ⟨_, heq, he⟩ := he
    cases heq
    exact .then (keeps_reportEntries hlog _) fun _ _ => .returning (he.fileTree_eq root paths)

section Batch

variable {ways : List (List String)} {documents : List String} {tree : FileTree (Option Request)}
  {failures : List Failure}

/-- The documents from which a request is read and the failures are all documents. -/
theorem read_perm (hways : ∀ way ∈ ways, IsWay way)
    (hdocuments : documents.Perm (ways.map (pathTo directory)))
    (hread : ReadTree d (d.fileTree directory documents) tree failures) :
    ((tree.files.filter (·.content.isSome)).map (·.path) ++ failures.map (·.path)).Perm
      documents := by
  have hfiles : ((d.fileTree directory documents).files.map (·.path)).Perm documents := by
    refine ((d.files_fileTree hways hdocuments).map _).trans ?_
    rw [List.map_map]
    exact hdocuments.symm
  have hunread : failures.map (·.path) =
      ((d.fileTree directory documents).files.map (·.path)).filter
        fun path => !(d.request? path).isSome := by
    rw [hread.failures_eq, Disk.fileTree, FileTree.ofPaths, FileTree.filesAt, unread_filesIn,
      unread]
    simp only [Option.not_isSome]
    rfl
  have hsome : (tree.files.filter (·.content.isSome)).map (·.path) =
      ((d.fileTree directory documents).files.map (·.path)).filter
        fun path => (d.request? path).isSome := by
    rw [hread.files_eq, List.filter_map, List.map_map, List.filter_map]
    rfl
  rw [hunread, hsome]
  exact (List.filter_append_perm _ _).trans hfiles

/-- A file of the tree that is read stands in the folders on the way to it. -/
theorem exists_way_of_mem {f : Placed (Option Request)} (hways : ∀ way ∈ ways, IsWay way)
    (hdocuments : documents.Perm (ways.map (pathTo directory)))
    (hread : ReadTree d (d.fileTree directory documents) tree failures) (hf : f ∈ tree.files) :
    ∃ folders name, f.path = pathTo directory (folders ++ [name]) ∧
      f.folders = shownOn d.folderLabel? directory folders ∧ f.content = d.request? f.path := by
  rw [hread.files_eq] at hf
  obtain ⟨g, hg, rfl⟩ := List.mem_map.1 hf
  obtain ⟨way, hway, rfl⟩ :=
    List.mem_map.1 ((d.files_fileTree hways hdocuments).mem_iff.1 hg)
  obtain ⟨folders, name, rfl, -⟩ := (hways way hway).document
  exact ⟨folders, name, rfl, by rw [Placed.read, List.dropLast_concat], rfl⟩

/-- Every request that is read becomes a leaf. -/
theorem exists_accounted {y : Collection.Yield} (hways : ∀ way ∈ ways, IsWay way)
    (hdocuments : documents.Perm (ways.map (pathTo directory)))
    (hread : ReadTree d (d.fileTree directory documents) tree failures)
    (hy : Ends (Collection.buildTree (Collection.batchOptions strategy) tree) (.ok y)) :
    y.failures = [] ∧ ∃ origins,
      Accounted d strategy directory documents (leavesIn [] y.items) failures origins := by
  rcases Collection.buildTree_cases (Collection.batchOptions strategy) tree with
    ⟨y', items, rejected, hends, hmirrored, hitems, hfailures, -, -⟩ | ⟨fault, hends, -⟩
  · cases hy.unique hends
    obtain ⟨leaves, hsettled, hleaves⟩ := hmirrored.settled []
    obtain ⟨rfl, origins, rfl, hpaths, horigins⟩ := hsettled.exists_origins
    refine ⟨hfailures.eq_nil, origins, ?_, ?_, fun origin horigin => ?_, fun failure hfailure => ?_⟩
    · rw [hpaths]
      exact read_perm hways hdocuments hread
    · exact ((Collection.leavesIn_perm [] hitems).trans hleaves).symm
    · obtain ⟨r, hmem, haccepted⟩ := horigins origin horigin
      obtain ⟨built, hbuilt, hitem⟩ := haccepted.eq_item
      obtain ⟨folders, name, hpath, hfolders, hcontent⟩ :=
        exists_way_of_mem hways hdocuments hread hmem
      exact ⟨folders, name, r, built, hpath, hfolders, hcontent.symm, hbuilt, hitem⟩
    · have hmem := List.mem_map_of_mem (f := (·.path)) hfailure
      rw [hread.failures_eq, Job.unread, List.mem_filter] at hmem
      exact Option.isNone_iff_eq_none.1 hmem.2
  · cases hy.unique hends

theorem isDocument_of_mem_fileTree (hways : ∀ way ∈ ways, IsWay way)
    (hdocuments : documents.Perm (ways.map (pathTo directory)))
    {f : Placed Unit} (hf : f ∈ FileTree.filesAt [] (d.fileTree directory documents)) :
    IsDocument f.path := by
  rw [Disk.fileTree, FileTree.ofPaths, FileTree.filesAt, FileTree.filesIn_eq_map] at hf
  obtain ⟨g, hg, rfl⟩ := List.mem_map.1 hf
  obtain ⟨way, hway, rfl⟩ :=
    List.mem_map.1 ((d.files_fileTree hways hdocuments).mem_iff.1 hg)
  exact Disk.isDocument_pathTo directory (hways way hway)

/-- A collection of items that have been built is accepted as it is. -/
theorem Accounted.leavesOfCollection_eq {title : Json} {items : List Item} {collection : Json}
    {origins : List (String × Leaf)}
    (haccounted : Accounted d strategy directory documents (leavesIn [] items) failures origins)
    (h : Collection.validateCollection
      (Collection.collectionJson title (itemsJson items)) = .ok collection) :
    leavesOfCollection collection = leavesIn [] items := by
  have hitems : ∀ leaf ∈ leavesIn [] items, ∃ name r built,
      itemOf strategy name r = .ok built ∧ leaf.item = built.item := fun leaf hleaf => by
    obtain ⟨origin, horigin, rfl⟩ := List.mem_map.1 (haccounted.leaves_perm.mem_iff.2 hleaf)
    obtain ⟨_, _, r, built, -, -, -, hbuilt, hitem⟩ := haccounted.becomes origin horigin
    exact ⟨_, r, built, hbuilt, hitem⟩
  obtain ⟨name, rfl, hne⟩ := Collection.exists_title_of_validateCollection h
  have hnormal := Collection.normal_collectionJson hne
    (Collection.normal_itemsJson [] items fun leaf hleaf => by
      obtain ⟨_, _, built, hbuilt, hitem⟩ := hitems leaf hleaf
      rw [hitem]
      exact Collection.normal_itemOf hbuilt)
  rw [Collection.validateCollection_of_normal hnormal] at h
  cases h
  refine Collection.leavesOfCollection_collectionJson fun leaf hleaf => ?_
  obtain ⟨_, _, built, hbuilt, hitem⟩ := hitems leaf hleaf
  rw [hitem]
  exact Collection.isRequest_itemOf hbuilt

theorem keeps_collect (hlog : s.Spares) (hways : ∀ way ∈ ways, IsWay way)
    (hdocuments : documents.Perm (ways.map (pathTo directory))) (title : Json) :
    Keeps s d (collect strategy title directory documents)
      (Returning fun collected => collected.1.Legible ∧ ∃ origins,
        Accounted d strategy directory documents (leavesOfCollection collected.1) collected.2.2
          origins) := by
  refine .then (keeps_arrange hlog directory documents) fun arranged harranged => ?_
  obtain rfl := harranged arranged rfl
  refine .then (keeps_readTree hlog _ fun f hf =>
    isDocument_of_mem_fileTree hways hdocuments hf) fun read hread => ?_
  obtain ⟨tree, unread⟩ := read
  replace hread : ReadTree d (d.fileTree directory documents) tree unread := hread _ rfl
  rcases Collection.buildTree_cases (Collection.batchOptions strategy) tree with
    ⟨y, -, -, hends, -⟩ | ⟨fault, hends, -⟩
  · obtain ⟨hnone, origins, haccounted⟩ :=
      exists_accounted hways hdocuments hread hends
    refine .then (keeps_ofConverting hlog (Collection.ofBuilding_ends hends)) fun y' hy => ?_
    cases hy
    refine .then (keeps_ofConverting hlog (.ofExcept _)) fun collection hcollection => .returning ?_
    have hvalid := mapError_eq_ok.1 hcollection.symm
    have hleaves := haccounted.leavesOfCollection_eq hvalid
    dsimp only
    rw [hnone, List.append_nil, hleaves]
    exact ⟨Collection.legible_of_validateCollection hvalid, origins, haccounted⟩
  · refine .then (keeps_ofConverting hlog (Collection.ofBuilding_ends hends)) fun y' hy => ?_
    cases hy

end Batch

/-! ## Directories -/

theorem runFrom_bind_eq_ok {α β : Type} {job : Job α} {next : α → Job β} {p q : Progress} {b : β} :
    runFrom (job >>= next) s p = (.ok b, q) ↔
      ∃ a r, runFrom job s p = (.ok a, r) ∧ runFrom (next a) s r = (.ok b, q) := by
  rw [runFrom_bind]
  rcases runFrom job s p with ⟨fault | a, r⟩
  · simp
  · simp

/-- What a job that keeps the documents has returned. -/
theorem Keeps.of_runFrom {α : Type} {job : Job α} {P : Except Fault α → Prop} {p q : Progress}
    {a : α} (h : Keeps s d job P) (hp : SameDocuments d p.disk)
    (hrun : runFrom job s p = (.ok a, q)) : SameDocuments d q.disk ∧ P (.ok a) := by
  have hkept := h p hp
  rwa [hrun] at hkept

/-- The documents of requests are those that are found, without the environments. -/
theorem requestDocuments_eq_ok (hlog : s.Spares) {excluded : List String} {p q : Progress}
    {documents : List String}
    (h : runFrom (requestDocuments excluded directory) s p = (.ok documents, q)) :
    SameDocuments p.disk q.disk ∧
      ∃ found, Discovery.documents p.disk excluded directory = .ok found ∧
        documents = found.filter fun path => !Discovery.isEnvironment p.disk directory path := by
  obtain ⟨_, _, hdisk, h⟩ := runFrom_bind_eq_ok.1 h
  cases hdisk
  obtain ⟨found, r, hfound, h⟩ := runFrom_bind_eq_ok.1 h
  rcases hresult : Discovery.documents p.disk excluded directory with fault | found'
  · rw [hresult] at hfound
    cases hfound
  rw [hresult] at hfound
  cases hfound
  dsimp only at h
  have hthrow {documents : List String} :
      Keeps s p.disk (if documents.isEmpty = true then do
          let __r ← (throw (.refused (.noRequests directory)) : Job Unit)
          (fun _ => pure documents) __r
        else pure documents) (Returning (· = documents)) := by
    split
    · exact .then (.throw (P := fun _ => True) trivial) fun _ _ => .returning rfl
    · exact .returning rfl
  split at h
  · obtain ⟨_, r, hreport, h⟩ := runFrom_bind_eq_ok.1 h
    obtain ⟨hr, -⟩ := (keeps_reportEntries hlog _).of_runFrom (.refl _) hreport
    obtain ⟨hq, hdocuments⟩ := hthrow.of_runFrom hr h
    exact ⟨hq, found, rfl, hdocuments _ rfl⟩
  · obtain ⟨hq, hdocuments⟩ := hthrow.of_runFrom (.refl _) h
    exact ⟨hq, found, rfl, hdocuments _ rfl⟩

theorem holdsJson_of_writeJson {path : String} {value : Json} {p q : Progress}
    (hvalue : value.Legible) (h : runFrom (writeJson path value) s p = (.ok (), q)) :
    q.disk.HoldsJson path value := by
  have hensures := ensures_writeJson (s := s) (p := p) path value
  rw [Ensures, h] at hensures
  obtain ⟨outcome, houtcome, hwrite⟩ := hensures
  cases mapError_eq_ok.1 houtcome.symm
  cases Disk.writes_of_writeText hwrite with
  | written _ read => exact .of_legible hvalue read

/-- The steps of converting a directory: documents are found, collected, counted and written. -/
theorem convertDirectory_eq_ok (hlog : s.Spares) {o : BatchOptions} {p q : Progress}
    {collection : Json} {report : Report} (henvironments : o.withEnvironments = false)
    (hrun : runFrom (convertDirectory o directory) s p = (.ok (collection, report), q)) :
    ∃ documents p₁ p₂ p₃ title warnings,
      runFrom (requestDocuments o.excluded directory) s p = (.ok documents, p₁) ∧
      SameDocuments p₁.disk p₂.disk ∧
      runFrom (collect o.strategy title directory documents) s p₂ =
        (.ok (collection, warnings, report.failures), p₃) ∧
      report.total = documents.length ∧
      (collection.Legible → q.disk.HoldsJson report.outputPath collection) := by
  obtain ⟨documents, p₁, hdocuments, hrun⟩ := runFrom_bind_eq_ok.1 hrun
  obtain ⟨_, _, hdisk, hrun⟩ := runFrom_bind_eq_ok.1 hrun
  cases hdisk
  obtain ⟨_, _, hreport, hrun⟩ := runFrom_bind_eq_ok.1 hrun
  obtain ⟨hsame, -⟩ := (keeps_reportEntries hlog _).of_runFrom (.refl _) hreport
  obtain ⟨_, _, hreport, hrun⟩ := runFrom_bind_eq_ok.1 hrun
  obtain ⟨hsame, -⟩ := (keeps_reportEntries hlog _).of_runFrom hsame hreport
  obtain ⟨_, p₂, hcheck, hrun⟩ := runFrom_bind_eq_ok.1 hrun
  obtain ⟨hsame, -⟩ := (keeps_ofExcept _ _).of_runFrom hsame hcheck
  obtain ⟨⟨_, warnings, failures⟩, p₃, hcollect, hrun⟩ := runFrom_bind_eq_ok.1 hrun
  obtain ⟨_, _, -, hrun⟩ := runFrom_bind_eq_ok.1 hrun
  obtain ⟨_, _, hwrite, hrun⟩ := runFrom_bind_eq_ok.1 hrun
  rw [henvironments] at hrun
  obtain ⟨_, _, hnone, hrun⟩ := runFrom_bind_eq_ok.1 hrun
  cases hnone
  obtain ⟨_, _, hsurroundings, hrun⟩ := runFrom_bind_eq_ok.1 hrun
  cases hsurroundings
  cases hrun
  exact ⟨documents, p₁, p₂, p₃, _, warnings, hdocuments, hsame, hcollect, rfl,
    fun hvalue => holdsJson_of_writeJson hvalue hwrite⟩

/-- Whenever a directory is converted, the report accounts for every document in it: the documents
are distinct, each has become exactly one leaf, in the folders on the way to it, or is exactly one
failure, and the numbers say how many have become what.  The collection is what the written file
holds, and what is read from it. -/
theorem convertDirectory_accounts {o : BatchOptions} {p q : Progress} {collection : Json}
    {report : Report} (hsound : p.disk.root.Sound) (hlog : s.Spares)
    (henvironments : o.withEnvironments = false)
    (hrun : runFrom (convertDirectory o directory) s p = (.ok (collection, report), q)) :
    ∃ found documents origins,
      Discovery.documents p.disk o.excluded directory = .ok found ∧
      documents = found.filter (fun path => !Discovery.isEnvironment p.disk directory path) ∧
      documents.Nodup ∧
      report.total = documents.length ∧
      (report.total : Int) = report.converted + report.failures.length ∧
      report.converted = (leavesOfCollection collection).length ∧
      (report.failures.map (·.path)).Nodup ∧
      Accounted p.disk o.strategy directory documents (leavesOfCollection collection)
        report.failures origins ∧
      q.disk.HoldsJson report.outputPath collection := by
  obtain ⟨documents, p₁, p₂, p₃, title, warnings, hdocuments, hsame, hcollect, htotal, hwritten⟩ :=
    convertDirectory_eq_ok hlog henvironments hrun
  obtain ⟨hfirst, found, hfound, rfl⟩ := requestDocuments_eq_ok hlog hdocuments
  obtain ⟨ways, hperm, -, hways⟩ := Discovery.documents_eq_ok hsound hfound
  have hrequests := hperm.filter fun path => !Discovery.isEnvironment p.disk directory path
  rw [List.filter_map] at hrequests
  obtain ⟨-, hcollected⟩ := (keeps_collect hlog
    (fun way hway => hways way (List.mem_of_mem_filter hway)) hrequests title).of_runFrom
      (hfirst.trans hsame) hcollect
  obtain ⟨hlegible, origins, haccounted⟩ := hcollected _ rfl
  dsimp only at haccounted
  have hnodup := (Discovery.nodup_documents hsound hfound).filter
    fun path => !Discovery.isEnvironment p.disk directory path
  have hcount := haccounted.documents_perm.length_eq
  have hleaves := haccounted.leaves_perm.length_eq
  rw [List.length_append, List.length_map, List.length_map] at hcount
  rw [List.length_map] at hleaves
  refine ⟨found, _, origins, hfound, rfl, hnodup, htotal, ?_, ?_, ?_, haccounted, hwritten hlegible⟩
  · rw [Report.converted]
    omega
  · rw [Report.converted]
    omega
  · exact (haccounted.documents_perm.nodup_iff.2 hnodup).of_append_right

/-- A directory with one document, in a folder that is shown under another name. -/
def pongDisk : Disk where
  root := .directory [("api", .directory [("old", .directory [
    ("folder.bru", .file (Text.Utf8.encode "meta \x7b\n  name: Old calls\n\x7d".toList)),
    ("pong.bru", .file (Text.Utf8.encode
      ("meta \x7b\n  name: Pong\n  type: http\n\x7d\n" ++
        "get \x7b\n  url: \x7b\x7bhost\x7d\x7d/pong\n\x7d").toList))])])]
  cwd := []

/-- Surroundings with a log file beside the directory. -/
def pongSurroundings : Surroundings where
  clock := "12:00:00"
  duration := ⟨0⟩
  languages := []
  stamp _ := ⟨"1", "2"⟩
  key := none
  reply _ := .failure "offline"
  logFile := some "/run.log".toList

def pongOptions : BatchOptions where
  output := some "pong.json"
  title := some "Pong"
  strategy := .textual
  withEnvironments := false
  excluded := []
  settings := []

theorem sound_pongDisk : pongDisk.root.Sound :=
  .directory (by decide) (by decide) <| List.forall_mem_singleton.2 <|
  .directory (by decide) (by decide) <| List.forall_mem_singleton.2 <|
  .directory (by decide) (by decide) <|
    List.forall_mem_cons.2 ⟨.file _, List.forall_mem_singleton.2 (.file _)⟩

theorem convertDirectory_accounts_pong :
    ∃ collection report q found documents origins,
      runFrom (convertDirectory pongOptions "api") pongSurroundings ⟨pongDisk, [], []⟩ =
        (.ok (collection, report), q) ∧
      Discovery.documents pongDisk [] "api" = .ok found ∧
      documents = found.filter (fun path => !Discovery.isEnvironment pongDisk "api" path) ∧
      documents.Nodup ∧
      report.total = documents.length ∧
      (report.total : Int) = report.converted + report.failures.length ∧
      report.converted = (leavesOfCollection collection).length ∧
      (report.failures.map (·.path)).Nodup ∧
      Accounted pongDisk .textual "api" documents (leavesOfCollection collection)
        report.failures origins ∧
      q.disk.HoldsJson report.outputPath collection := by
  have hreturns : ((runFrom (convertDirectory pongOptions "api") pongSurroundings
      ⟨pongDisk, [], []⟩).1.toOption.isSome) = true := by decide +kernel
  have hlog : pongSurroundings.Spares := Surroundings.spares_of_extension fun file hfile => by
    cases hfile
    decide
  rcases hrun : runFrom (convertDirectory pongOptions "api") pongSurroundings
    ⟨pongDisk, [], []⟩ with ⟨fault | ⟨collection, report⟩, q⟩
  · rw [hrun] at hreturns
    cases hreturns
  · obtain ⟨found, documents, origins, haccounts⟩ :=
      convertDirectory_accounts sound_pongDisk hlog rfl hrun
    exact ⟨collection, report, q, found, documents, origins, rfl, haccounts⟩

end Job

end Courier
