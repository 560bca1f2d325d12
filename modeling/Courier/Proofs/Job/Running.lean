import Courier.Proofs.Files.Values
import Courier.Proofs.Job.Reading
import Mathlib.Tactic.Common

/-!
# Running a job

`Job.Ensures` is what is known of a job once it has run from some progress on, and `Ensures.bind`
puts together what is known of one job after another.  Most jobs only read and report: of these
`Job.Quiet` says that they touch nothing but the log file.  A file is written by one job alone
(`ensures_writeJson`), and what may come of that is said by `Disk.Writes`.
-/

namespace Courier

open Disk (Changes)
open Script (Strategy)

/-- Files by their paths. -/
def filesOf (paths : List String) : Set Path.Chars := {file | String.ofList file ∈ paths}

theorem mem_filesOf {path : String} {paths : List String} :
    path.toList ∈ filesOf paths ↔ path ∈ paths := by
  rw [filesOf, Set.mem_ofPred_eq, String.ofList_toList]

theorem filesOf_mono {paths paths' : List String} (h : paths ⊆ paths') :
    filesOf paths ⊆ filesOf paths' := fun _ hfile => h hfile

namespace Surroundings

variable {s : Surroundings} {d d' d'' : Disk}

/-- The path of the log file, if there is one. -/
def logged (s : Surroundings) : Set Path.Chars := {file | s.logFile = some file}

/-- Nothing is changed but the log file, and nothing at all if there is none. -/
structure Untouched (s : Surroundings) (d d' : Disk) : Prop where
  eq_of_none : s.logFile = none → d' = d
  changes : Changes s.logged ∅ d d'

theorem Untouched.refl (s : Surroundings) (d : Disk) : s.Untouched d d :=
  ⟨fun _ => rfl, .refl d⟩

theorem Untouched.trans (h : s.Untouched d d') (h' : s.Untouched d' d'') : s.Untouched d d'' :=
  ⟨fun hnone => (h'.eq_of_none hnone).trans (h.eq_of_none hnone), h.changes.trans h'.changes⟩

theorem Untouched.changes_of {files made : Set Path.Chars} (h : s.Untouched d d') :
    Changes (s.logged ∪ files) made d d' :=
  h.changes.mono Set.subset_union_left (Set.empty_subset _)

end Surroundings

namespace Job

variable {α β ε : Type} {s : Surroundings} {p : Progress}

/-! ## What is known of a job -/

/-- From some progress on, what the job ends in and what it has done by then have a property. -/
def Ensures (s : Surroundings) (p : Progress) (job : Job α)
    (Q : Except Fault α → Progress → Prop) : Prop :=
  Q (runFrom job s p).1 (runFrom job s p).2

section

variable {job : Job α} {next : α → Job β} {R R' : Except Fault α → Progress → Prop}
  {Q : Except Fault β → Progress → Prop}

theorem Ensures.pure {a : α} (h : R (.ok a) p) : Ensures s p (Pure.pure a) R := h

theorem Ensures.mono (h : Ensures s p job R) (himp : ∀ result q, R result q → R' result q) :
    Ensures s p job R' := himp _ _ h

theorem Ensures.bind (hjob : Ensures s p job R) (hnext : ∀ a q, R (.ok a) q → Ensures s q (next a) Q)
    (hfault : ∀ fault q, R (.error fault) q → Q (.error fault) q) :
    Ensures s p (job >>= next) Q := by
  rw [Ensures, runFrom_bind]
  rw [Ensures] at hjob
  rcases hrun : runFrom job s p with ⟨fault | a, q⟩
  · rw [hrun] at hjob
    exact hfault fault q hjob
  · rw [hrun] at hjob
    exact hnext a q hjob

theorem ensures_disk_bind {next : Disk → Job β} :
    Ensures s p (disk >>= next) Q ↔ Ensures s p (next p.disk) Q := .rfl

theorem ensures_surroundings_bind {next : Surroundings → Job β} :
    Ensures s p (surroundings >>= next) Q ↔ Ensures s p (next s) Q := .rfl

theorem ensures_ofExcept_bind {fault : ε → Fault} {result : Except ε α}
    (hok : ∀ a, result = .ok a → Ensures s p (next a) Q)
    (herror : ∀ e, result = .error e → Q (.error (fault e)) p) :
    Ensures s p (ofExcept fault result >>= next) Q := by
  rcases result with e | a
  · exact herror e rfl
  · exact hok a rfl

theorem ensures_readText_bind {path : String} {next : List Char → Job β}
    (hok : ∀ text, p.disk.readText path = .ok text → Ensures s p (next text) Q)
    (herror : ∀ fault, p.disk.readText path = .error fault → Q (.error (.ofFile fault)) p) :
    Ensures s p (readText path >>= next) Q := by
  rw [readText, bind_assoc, ensures_disk_bind]
  exact ensures_ofExcept_bind hok herror

/-- A job is followed by the next one unless it ends in a fault that is not to be expected. -/
theorem Ensures.attempt_bind {next : Except Fault α → Job β} (h : Ensures s p job R)
    (hnext : ∀ ended q, R ended q → (∀ fault, ended = .error fault → fault.isExpected = true) →
      Ensures s q (next ended) Q)
    (hfault : ∀ fault q, R (.error fault) q → fault.isExpected = false → Q (.error fault) q) :
    Ensures s p (Job.attempt job >>= next) Q := by
  rw [Ensures, runFrom_bind, runFrom_attempt]
  rw [Ensures] at h
  rcases hrun : runFrom job s p with ⟨fault | a, q⟩
  · rw [hrun] at h
    dsimp only
    by_cases hexpected : fault.isExpected = true
    · rw [if_pos hexpected]
      refine hnext _ q h fun other hother => ?_
      cases hother
      exact hexpected
    · rw [if_neg hexpected]
      exact hfault fault q h (Bool.eq_false_iff.2 hexpected)
  · rw [hrun] at h
    exact hnext _ q h nofun

end

/-! ## Jobs that touch nothing -/

/-- Whatever it ends in, the job changes nothing but the log file. -/
def Quiet (s : Surroundings) (job : Job α) : Prop :=
  ∀ p, Ensures s p job fun _ q => s.Untouched p.disk q.disk

section

variable {job : Job α} {next : α → Job β}

theorem quiet_pure (a : α) : Quiet s (pure a) := fun p => .refl s p.disk

theorem quiet_throw (fault : Fault) : Quiet s (throw fault : Job α) := fun p => .refl s p.disk

theorem Quiet.bind (hjob : Quiet s job) (hnext : ∀ a, Quiet s (next a)) :
    Quiet s (job >>= next) := fun p =>
  (hjob p).bind (fun a q hq => (hnext a q).mono fun _ _ hlast => hq.trans hlast) fun _ _ hq => hq

theorem quiet_disk : Quiet s disk := fun p => .refl s p.disk

theorem quiet_ofExcept (fault : ε → Fault) (result : Except ε α) :
    Quiet s (ofExcept fault result) := by
  rcases result with e | a
  · exact quiet_throw (fault e)
  · exact quiet_pure a

theorem untouched_appendEntries {file : Path.Chars} (hfile : s.logFile = some file)
    (entries : List Log.Entry) (d : Disk) :
    s.Untouched d (appendEntries s.clock file entries d) := by
  refine ⟨fun hnone => ?_, ?_⟩
  · rw [hnone] at hfile
    cases hfile
  · rw [appendEntries]
    induction Log.fileTexts s.clock entries generalizing d with
    | nil => exact .refl d
    | cons text texts ih =>
      exact ((Disk.changes_append d file _).mono (Set.singleton_subset_iff.2 hfile) subset_rfl).trans
        (ih _)

theorem quiet_reportEntries (entries : List Log.Entry) : Quiet s (reportEntries entries) := by
  intro p
  rw [Ensures, runFrom_reportEntries]
  rcases hfile : s.logFile with _ | file
  · exact .refl s p.disk
  · exact untouched_appendEntries hfile entries p.disk

theorem ensures_reportEntries_bind {entries : List Log.Entry} {next : Job β}
    {Q : Except Fault β → Progress → Prop}
    (hnext : ∀ q, s.Untouched p.disk q.disk → Ensures s q next Q) :
    Ensures s p (reportEntries entries >>= fun _ => next) Q := by
  have huntouched := quiet_reportEntries (s := s) entries p
  rw [Ensures, runFrom_bind]
  rw [Ensures] at huntouched
  exact hnext _ huntouched

theorem quiet_ofConverting (c : Converting α) : Quiet s (ofConverting c) := by
  rw [ofConverting]
  exact (quiet_reportEntries _).bind fun _ => quiet_ofExcept id _

/-- A conversion that succeeds is followed by the next job. -/
theorem ensures_ofConverting_bind {c : Converting α} {a : α} {next : α → Job β}
    {Q : Except Fault β → Progress → Prop} (hc : Ends c (.ok a))
    (hnext : ∀ q, s.Untouched p.disk q.disk → Ensures s q (next a) Q) :
    Ensures s p (ofConverting c >>= next) Q := by
  have hresult : (c.run.run []).run.1 = .ok a := hc []
  rw [ofConverting]
  dsimp only
  rw [bind_assoc, hresult]
  exact ensures_reportEntries_bind hnext

theorem Quiet.attempt (h : Quiet s job) : Quiet s (attempt job) := by
  intro p
  have hjob := h p
  rw [Ensures] at hjob
  rw [Ensures, runFrom_attempt]
  rcases hrun : runFrom job s p with ⟨fault | a, q⟩
  · rw [hrun] at hjob
    dsimp only
    split
    · exact hjob
    · exact hjob
  · rw [hrun] at hjob
    exact hjob

theorem quiet_readText (path : String) : Quiet s (readText path) :=
  quiet_disk.bind fun _ => quiet_ofExcept .ofFile _

theorem quiet_readRequest (path : String) : Quiet s (readRequest path) :=
  (quiet_readText path).bind fun _ => quiet_ofConverting _

theorem quiet_readDocument (path : String) : Quiet s (readDocument path) := by
  refine (quiet_reportEntries _).bind fun _ => ?_
  refine (quiet_readRequest path).attempt.bind fun ended => ?_
  cases ended with
  | error fault => exact (quiet_reportEntries _).bind fun _ => quiet_pure _
  | ok r => exact quiet_pure _

mutual

theorem quiet_readTree : ∀ t : FileTree Unit, Quiet s (readTree t)
  | .file name path () => by
    rw [readTree]
    refine (quiet_readDocument path).bind fun outcome => ?_
    cases outcome with
    | error failure => exact quiet_pure _
    | ok r => exact quiet_pure _
  | .folder name path label children => by
    rw [readTree]
    exact (quiet_readTrees children).bind fun _ => quiet_pure _

/-- Reading the documents of trees touches nothing. -/
theorem quiet_readTrees : ∀ ts : List (FileTree Unit), Quiet s (readTrees ts)
  | [] => by
    rw [readTrees]
    exact quiet_pure _
  | t :: ts => by
    rw [readTrees]
    exact (quiet_readTree t).bind fun _ => (quiet_readTrees ts).bind fun _ => quiet_pure _

end

end

/-! ## Writing -/

theorem runFrom_onDisk (fault : ε → Fault) (work : Disk → Except ε α × Disk) (s : Surroundings)
    (p : Progress) :
    runFrom (onDisk fault work) s p =
      ((work p.disk).1.mapError fault, { p with disk := (work p.disk).2 }) := by
  rw [onDisk, runFrom_bind]
  change runFrom (do
    set { p with disk := (work p.disk).2 }
    ofExcept fault (work p.disk).1 : Job α) s p = _
  rw [runFrom_bind]
  rcases work p.disk with ⟨e | a, d⟩
  · rfl
  · rfl

/-- Writing a value is writing its text. -/
theorem ensures_writeJson (path : String) (value : Json) :
    Ensures s p (writeJson path value) fun result q => ∃ outcome,
      result = outcome.mapError Fault.ofFile ∧
        Disk.writeText path value.fileText p.disk = (outcome, q.disk) := by
  rw [Ensures, writeJson, writeText, runFrom_onDisk, ← Json.fileText]
  rcases Disk.writeText path value.fileText p.disk with ⟨outcome, d⟩
  exact ⟨outcome, rfl, rfl⟩

theorem ensures_writeJson_of_accepts {path : String} {value : Json} (h : p.disk.Accepts path)
    (hvalue : value.Legible) :
    Ensures s p (writeJson path value) fun result q =>
      result = .ok () ∧ q.disk.HoldsJson path value := by
  refine (ensures_writeJson path value).mono fun result q hq => ?_
  obtain ⟨outcome, rfl, hwrite⟩ := hq
  obtain rfl : outcome = .ok () := by rw [← h value.fileText, hwrite]
  cases Disk.writes_of_writeText hwrite with
  | written _ read => exact ⟨rfl, .of_legible hvalue read⟩

-- What is known of a job follows from the lemmas above, and not from running it.
attribute [irreducible] Ensures

end Job

end Courier
