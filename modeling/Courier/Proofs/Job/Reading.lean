import Courier.Job.Collections
import Courier.Proofs.Collection.Building
import Courier.Proofs.Collection.Layout
import Courier.Proofs.Collection.Leaf
import Courier.Proofs.Files.Documents
import Courier.Proofs.Reporting
import Mathlib.Tactic.Common

/-!
# Jobs that keep the documents

A job that reads documents finds the same in them at every time, for entries are reported elsewhere
(`Surroundings.Spares`).  `Job.Keeps` says so of a job, whatever it ends in, together with what is
known of its end; each of the lemmas below takes one step off a job.  `readTree_keeps` is about a
whole tree: every file of it is read, where it stands, or is among the failures.
-/

namespace Courier

open Discovery (hasExtension)
open Disk (IsDocument SameDocuments)
open FileTree (Placed filesIn filesAt)

/-- No document is used as a log file. -/
def Surroundings.Spares (s : Surroundings) : Prop :=
  ∀ file, s.logFile = some file → ∀ entries d,
    SameDocuments d (Job.appendEntries s.clock file entries d)

theorem Surroundings.spares_of_extension {s : Surroundings}
    (h : ∀ file, s.logFile = some file → hasExtension (String.ofList file) = false) :
    s.Spares := by
  intro file hfile entries d
  rw [Job.appendEntries]
  induction Log.fileTexts s.clock entries generalizing d with
  | nil => exact .refl d
  | cons text texts ih =>
    exact (Disk.sameDocuments_append (h file hfile) _ d).trans (ih _)

namespace Job

variable {α β : Type} {s : Surroundings} {d : Disk}

/-- From a disk with the documents of `d`, the job comes to such a disk, and what it ends in has a
property. -/
def Keeps (s : Surroundings) (d : Disk) (job : Job α) (P : Except Fault α → Prop) : Prop :=
  ∀ p, SameDocuments d p.disk →
    SameDocuments d (runFrom job s p).2.disk ∧ P (runFrom job s p).1

namespace Keeps

variable {job : Job α} {next : α → Job β} {P P' : Except Fault α → Prop} {Q : Except Fault β → Prop}

theorem pure {a : α} (h : P (.ok a)) : Keeps s d (Pure.pure a) P := fun _ hp => ⟨hp, h⟩

theorem throw {fault : Fault} (h : P (.error fault)) : Keeps s d (throw fault : Job α) P :=
  fun _ hp => ⟨hp, h⟩

theorem mono (h : Keeps s d job P) (himp : ∀ result, P result → P' result) : Keeps s d job P' :=
  fun p hp => ⟨(h p hp).1, himp _ (h p hp).2⟩

theorem bind (hjob : Keeps s d job P) (hnext : ∀ a, P (.ok a) → Keeps s d (next a) Q)
    (hfault : ∀ fault, P (.error fault) → Q (.error fault)) : Keeps s d (job >>= next) Q := by
  intro p hp
  obtain ⟨hq, hP⟩ := hjob p hp
  rw [runFrom_bind]
  rcases hrun : runFrom job s p with ⟨result, q⟩
  rw [hrun] at hq hP
  rcases result with fault | a
  · exact ⟨hq, hfault fault hP⟩
  · exact hnext a hP q hq

end Keeps

/-- A property of what is returned, if anything is. -/
def Returning (P : α → Prop) (result : Except Fault α) : Prop := ∀ a, result = .ok a → P a

theorem Keeps.returning {P : α → Prop} {a : α} (h : P a) :
    Keeps s d (Pure.pure a) (Returning P) := by
  refine .pure ?_
  rintro _ ⟨⟩
  exact h

/-- Of a job that ends in a fault, nothing need be known. -/
theorem Keeps.then {job : Job α} {next : α → Job β} {P : Except Fault α → Prop} {Q : β → Prop}
    (hjob : Keeps s d job P) (hnext : ∀ a, P (.ok a) → Keeps s d (next a) (Returning Q)) :
    Keeps s d (job >>= next) (Returning Q) := by
  refine .bind hjob hnext fun _ _ => ?_
  rintro _ ⟨⟩

theorem keeps_disk : Keeps s d disk fun result => ∃ e, result = .ok e ∧ SameDocuments d e :=
  fun p hp => ⟨hp, p.disk, rfl, hp⟩

theorem keeps_ofExcept {ε : Type} (fault : ε → Fault) (result : Except ε α)
    : Keeps s d (ofExcept fault result) (· = result.mapError fault) := by
  rcases result with e | a
  · exact .throw rfl
  · exact .pure rfl

theorem runFrom_reportEntries (entries : List Log.Entry) (s : Surroundings) (p : Progress) :
    runFrom (reportEntries entries) s p = (.ok (), { p with
      entries := p.entries ++ entries
      disk := match s.logFile with
        | some file => appendEntries s.clock file entries p.disk
        | none => p.disk }) := rfl

theorem keeps_reportEntries (hlog : s.Spares) (entries : List Log.Entry) :
    Keeps s d (reportEntries entries) (· = .ok ()) := by
  intro p hp
  rw [runFrom_reportEntries]
  refine ⟨?_, rfl⟩
  rcases hfile : s.logFile with _ | file
  · exact hp
  · exact hp.trans (hlog file hfile entries p.disk)

theorem keeps_ofConverting (hlog : s.Spares) {c : Converting α} {result : Except Fault α}
    (h : Ends c result) : Keeps s d (ofConverting c) (· = result) := by
  have hresult : (c.run.run []).run.1 = result := h []
  rw [ofConverting]
  dsimp only
  refine .bind (keeps_reportEntries hlog _) (fun _ _ => ?_) fun _ hfault => by cases hfault
  rw [hresult]
  refine (keeps_ofExcept id result).mono fun ended hended => ?_
  rw [hended]
  rcases result with _ | _
  · rfl
  · rfl

/-- A fault that is to be expected is returned, and the progress made by then stays. -/
theorem runFrom_attempt (job : Job α) (s : Surroundings) (p : Progress) :
    runFrom (attempt job) s p =
      match runFrom job s p with
      | (.ok a, q) => (.ok (.ok a), q)
      | (.error fault, q) =>
        if fault.isExpected then (.ok (.error fault), q) else (.error fault, q) := by
  simp only [runFrom, attempt, tryCatch, tryCatchThe, MonadExceptOf.tryCatch, ReaderT.run,
    ExceptT.run, ExceptT.tryCatch, ExceptT.mk, StateT.run, bind, StateT.bind, Functor.map,
    ExceptT.map, Id.run]
  rcases job s p with ⟨result, q⟩
  rcases result with fault | a
  · change (if fault.isExpected = true then Pure.pure (Except.error fault) else throw fault :
      Job (Except Fault α)) s q = _
    dsimp only
    split
    · rfl
    · rfl
  · rfl

theorem keeps_attempt {job : Job α} {P : Except Fault α → Prop} (h : Keeps s d job P) :
    Keeps s d (attempt job) fun result => ∀ ended, result = .ok ended → P ended := by
  intro p hp
  obtain ⟨hq, hP⟩ := h p hp
  rw [runFrom_attempt]
  rcases hrun : runFrom job s p with ⟨result, q⟩
  rw [hrun] at hq hP
  rcases result with fault | a
  · dsimp only
    split
    · refine ⟨hq, fun ended hended => ?_⟩
      cases hended
      exact hP
    · exact ⟨hq, fun ended hended => by cases hended⟩
  · refine ⟨hq, fun ended hended => ?_⟩
    cases hended
    exact hP

/-! ## Reading documents -/

variable {path : String}

theorem keeps_readText (hpath : IsDocument path) :
    Keeps s d (readText path) fun result => result.toOption = (d.readText path).toOption := by
  refine .bind keeps_disk (fun e he => ?_) fun fault hfault => ?_
  · obtain ⟨_, heq, he⟩ := he
    cases heq
    refine (keeps_ofExcept .ofFile _).mono fun result hresult => ?_
    rw [hresult, ← he.toOption_readText_eq hpath]
    rcases e.readText path with _ | _
    · rfl
    · rfl
  · obtain ⟨_, hnone, -⟩ := hfault
    cases hnone

/-- What is read from a document is the request in it. -/
theorem keeps_readRequest (hlog : s.Spares) (hpath : IsDocument path) :
    Keeps s d (readRequest path) fun result => result.toOption = d.request? path := by
  refine .bind (keeps_readText hpath) (fun text htext => ?_) fun fault hfault => ?_
  · refine (keeps_ofConverting hlog (Collection.parse_ends text)).mono fun result hresult => ?_
    rw [hresult, Disk.request?, ← htext]
    change _ = (Request.ofText text).toOption
    rcases Request.ofText text with _ | _
    · rfl
    · rfl
  · rw [Disk.request?, ← hfault]
    rfl

/-- A document is read, or it is a failure with its path. -/
def ReadAs (d : Disk) (path : String) : Except Failure Request → Prop
  | .ok r => d.request? path = some r
  | .error failure => d.request? path = none ∧ failure.path = path

theorem keeps_readDocument (hlog : s.Spares) (hpath : IsDocument path) :
    Keeps s d (readDocument path) (Returning (ReadAs d path)) := by
  refine .then (keeps_reportEntries hlog _) fun _ _ => ?_
  refine .then (keeps_attempt (keeps_readRequest hlog hpath)) fun ended hended => ?_
  have hrequest := hended ended rfl
  rcases ended with fault | r
  · exact .then (keeps_reportEntries hlog _) fun _ _ => .returning ⟨hrequest.symm, rfl⟩
  · exact .returning hrequest.symm

/-! ## Reading trees -/

/-- A file with the request that is read from it. -/
def Placed.read (d : Disk) (f : Placed Unit) : Placed (Option Request) :=
  ⟨f.folders, f.path, d.request? f.path⟩

/-- The paths of the files from which no request is read. -/
def unread (d : Disk) (files : List (Placed Unit)) : List String :=
  (files.map (·.path)).filter fun path => (d.request? path).isNone

/-- Every file of a tree is read where it stands, and those without request are failures. -/
structure ReadTree (d : Disk) (t : FileTree Unit) (t' : FileTree (Option Request))
    (failures : List Failure) : Prop where
  at_eq : ∀ folders, filesAt folders t' = (filesAt folders t).map (Placed.read d)
  files_eq : t'.files = t.files.map (Placed.read d)
  failures_eq : failures.map (·.path) = unread d (filesAt [] t)

/-- The same of trees in a folder. -/
structure ReadTrees (d : Disk) (ts : List (FileTree Unit)) (ts' : List (FileTree (Option Request)))
    (failures : List Failure) : Prop where
  in_eq : ∀ folders, filesIn folders ts' = (filesIn folders ts).map (Placed.read d)
  failures_eq : failures.map (·.path) = unread d (filesIn [] ts)

theorem unread_filesIn (d : Disk) (folders : List String) (ts : List (FileTree Unit)) :
    unread d (filesIn folders ts) = unread d (filesIn [] ts) := by
  rw [unread, FileTree.filesIn_eq_map, List.map_map]
  rfl

theorem readTree_file (name : String) {outcome : Except Failure Request}
    (h : ReadAs d path outcome) :
    match outcome with
    | .ok r => ReadTree d (.file name path ()) (.file name path (some r)) []
    | .error failure => ReadTree d (.file name path ()) (.file name path none) [failure] := by
  rcases outcome with failure | r
  · obtain ⟨hnone, hpath⟩ := h
    refine ⟨fun folders => ?_, rfl, ?_⟩
    · simp [filesAt, Placed.read, hnone]
    · simp [filesAt, unread, hnone, hpath]
  · have hsome : d.request? path = some r := h
    refine ⟨fun folders => ?_, rfl, ?_⟩
    · simp [filesAt, Placed.read, hsome]
    · simp [filesAt, unread, hsome]

theorem ReadTrees.folder {children : List (FileTree Unit)}
    {children' : List (FileTree (Option Request))} {failures : List Failure}
    (h : ReadTrees d children children' failures) (name path : String) (label : Option String) :
    ReadTree d (.folder name path label children) (.folder name path label children') failures := by
  refine ⟨fun folders => ?_, h.in_eq [], ?_⟩
  · rw [filesAt, filesAt, FileTree.shownName_folder, FileTree.shownName_folder, h.in_eq]
  · rw [filesAt, unread_filesIn, h.failures_eq]

theorem ReadTree.cons {t : FileTree Unit} {t' : FileTree (Option Request)}
    {ts : List (FileTree Unit)} {ts' : List (FileTree (Option Request))}
    {failures others : List Failure} (h : ReadTree d t t' failures)
    (hs : ReadTrees d ts ts' others) :
    ReadTrees d (t :: ts) (t' :: ts') (failures ++ others) := by
  refine ⟨fun folders => ?_, ?_⟩
  · rw [filesIn, filesIn, h.at_eq, hs.in_eq, List.map_append]
  · rw [List.map_append, h.failures_eq, hs.failures_eq, filesIn, unread, unread, unread,
      List.map_append, List.filter_append]

mutual

theorem keeps_readTree (hlog : s.Spares) :
    ∀ t : FileTree Unit, (∀ f ∈ filesAt [] t, IsDocument f.path) →
      Keeps s d (readTree t) (Returning fun read => ReadTree d t read.1 read.2)
  | .file name path (), hdoc => by
    rw [readTree]
    have hpath : IsDocument path := hdoc ⟨[], path, ()⟩ (by simp [filesAt])
    refine .then (keeps_readDocument hlog hpath) fun outcome houtcome => ?_
    have hread := readTree_file name (houtcome outcome rfl)
    rcases outcome with failure | r
    · exact .returning hread
    · exact .returning hread
  | .folder name path label children, hdoc => by
    rw [readTree]
    rw [filesAt, FileTree.filesIn_eq_map] at hdoc
    have hchildren : ∀ f ∈ filesIn [] children, IsDocument f.path := fun f hf =>
      hdoc (f.within _) (List.mem_map_of_mem hf)
    exact .then (keeps_readTrees hlog children hchildren) fun read hread =>
      .returning ((hread read rfl).folder name path label)

/-- Every file of the trees is read. -/
theorem keeps_readTrees (hlog : s.Spares) :
    ∀ ts : List (FileTree Unit), (∀ f ∈ filesIn [] ts, IsDocument f.path) →
      Keeps s d (readTrees ts) (Returning fun read => ReadTrees d ts read.1 read.2)
  | [], _ => by
    rw [readTrees]
    exact .returning ⟨fun folders => by rw [filesIn, filesIn, List.map_nil], rfl⟩
  | t :: ts, hdoc => by
    rw [readTrees]
    rw [filesIn] at hdoc
    refine .then (keeps_readTree hlog t fun f hf => hdoc f (List.mem_append_left _ hf))
      fun read hread => ?_
    exact .then (keeps_readTrees hlog ts fun f hf => hdoc f (List.mem_append_right _ hf))
      fun others hothers => .returning ((hread read rfl).cons (hothers others rfl))

end

end Job

end Courier
