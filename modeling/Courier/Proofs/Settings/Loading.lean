import Courier.Proofs.Files.Disk
import Courier.Settings.File
import Mathlib.Tactic.Common

/-!
# Loading settings

Whatever stands in the chosen file, loading gives the mapping in it or else no settings, and warns
about a file that holds neither a mapping nor null.  `Breaks` names the exceptions, which end the
job: a path that no file can have, and a fault of the reader that is not about the syntax.

* `finds_ofFile` says what is found in a file by the value that stands in it (`valueIn?`).
* `loadFile_breaks` and `loadFile_loads` run the job on one file in the two cases.
* `loadBy_outcome` is the main statement, for every reader of documents.
* `load_undecodable`: for the reader that reads texts in UTF-8, octets that are no text end the job.
-/

namespace Courier.Settings

open Job (runFrom runFrom_bind)

variable {ε : Type} {read : DocumentReader ε} {escape : ε → Fault} {d : Disk} {path : String}
  {s : Surroundings} {p : Progress}

/-! ## What stands in a file -/

/-- The value that stands in a file, if there is such a file that can be opened and its document can
be read. -/
def valueIn? (read : DocumentReader ε) (d : Disk) (path : String) : Option Json :=
  (d.fetch path.toList).toOption.bind fun octets => (read octets).toOption

/-- The file holds neither a mapping nor null. -/
def Unusable (read : DocumentReader ε) (d : Disk) (path : String) : Prop :=
  ∀ value, valueIn? read d path = some value → value ≠ .null ∧ ∀ members, value ≠ .object members

/-- What ends the job that loads a file: a path that no file can have, or a fault of the reader that
is not about the syntax. -/
inductive Breaks (read : DocumentReader ε) (escape : ε → Fault) (d : Disk) (path : String) :
    Fault → Prop
  | path (hnull : '\x00' ∈ path.toList) : Breaks read escape d path (.system .nullInPath)
  | reader {octets : List UInt8} {fault : ε} (hfetch : d.fetch path.toList = .ok octets)
      (hfault : read octets = .error (.other fault)) : Breaks read escape d path (escape fault)

/-- What is found in a file. -/
inductive Finds (read : DocumentReader ε) (escape : ε → Fault) (d : Disk) (path : String) :
    Except Fault (Except FileFault (Option Settings)) → Prop
  | mapping {members : Settings} (h : valueIn? read d path = some (.object members)) :
      Finds read escape d path (.ok (.ok (some members)))
  | null (h : valueIn? read d path = some .null) : Finds read escape d path (.ok (.ok none))
  | unusable {fault : FileFault} (h : Unusable read d path) :
      Finds read escape d path (.ok (.error fault))
  | breaks {fault : Fault} (h : Breaks read escape d path fault) :
      Finds read escape d path (.error fault)

theorem valueIn?_of_fetch {octets : List UInt8} (h : d.fetch path.toList = .ok octets) :
    valueIn? read d path = (read octets).toOption := by
  rw [valueIn?, h]
  rfl

theorem unusable_of_eq_none (h : valueIn? read d path = none) : Unusable read d path := by
  intro value hvalue
  rw [h] at hvalue
  cases hvalue

theorem finds_ofValue {value : Json} (h : valueIn? read d path = some value) :
    Finds read escape d path (.ok (ofValue value)) := by
  unfold ofValue
  split
  · exact .null h
  · exact .mapping h
  · rename_i hnull hobject
    refine .unusable fun value' hvalue' => ?_
    rw [h] at hvalue'
    cases hvalue'
    exact ⟨hnull, hobject⟩

theorem ofFile_of_fetch {octets : List UInt8} (h : d.fetch path.toList = .ok octets) :
    ofFile read escape d path =
      match read octets with
      | .ok value => .ok (ofValue value)
      | .error .malformed => .ok (.error .invalid)
      | .error (.other fault) => .error (escape fault) := by
  rcases hread : read octets with (_ | fault) | value
  · simp only [ofFile, h, hread]
  · simp only [ofFile, h, hread]
  · simp only [ofFile, h, hread]

theorem finds_ofFile (read : DocumentReader ε) (escape : ε → Fault) (d : Disk) (path : String) :
    Finds read escape d path (ofFile read escape d path) := by
  rcases hfetch : d.fetch path.toList with fault | octets
  · have hnone : valueIn? read d path = none := by
      rw [valueIn?, hfetch]
      rfl
    rw [ofFile, hfetch]
    cases fault with
    | refused cause named => exact .unusable (unusable_of_eq_none hnone)
    | nullInPath =>
      refine .breaks (.path ?_)
      by_contra hnull
      exact Disk.avoids_fetch hnull hfetch
  · have hvalue : valueIn? read d path = (read octets).toOption := valueIn?_of_fetch hfetch
    rw [ofFile_of_fetch hfetch]
    rcases hdocument : read octets with (_ | fault) | value
    · rw [hdocument] at hvalue
      exact .unusable (unusable_of_eq_none hvalue)
    · exact .breaks (.reader hfetch hdocument)
    · rw [hdocument] at hvalue
      exact finds_ofValue hvalue

/-! ## Loading one file -/

/-- What loading a file gives when it does not break. -/
structure Loads (read : DocumentReader ε) (d : Disk) (path : String) (settings : Settings)
    (entries : List Log.Entry) : Prop where
  mapping : ∀ members, valueIn? read d path = some (.object members) → settings = members
  empty : (∀ members, valueIn? read d path ≠ some (.object members)) → settings = []
  warns : (∃ e ∈ entries, e.level = .warning) ↔ Unusable read d path

/-- What a job does when it reads a file. -/
theorem runFrom_loadFile :
    runFrom (loadFile read escape path) s p =
      match ofFile read escape p.disk path with
      | .error fault => (.error fault, p)
      | .ok (.error fault) =>
        (.ok [], (runFrom (Job.report .warning (fault.message path)) s p).2)
      | .ok (.ok none) => (.ok [], p)
      | .ok (.ok (some settings)) =>
        (.ok settings, (runFrom (Job.report .debug
          s!"Config loaded from {path}: {settings.length} keys.") s p).2) := by
  have hdisk : runFrom Job.disk s p = (.ok p.disk, p) := rfl
  rw [loadFile, runFrom_bind, hdisk]
  dsimp only
  rw [runFrom_bind]
  rcases ofFile read escape p.disk path with fault | fault | _ | settings <;> rfl

theorem loadFile_breaks {fault : Fault} (h : Breaks read escape p.disk path fault) :
    runFrom (loadFile read escape path) s p = (.error fault, p) := by
  rw [runFrom_loadFile]
  cases h with
  | path hnull => rw [ofFile, Disk.fetch_of_null hnull]
  | reader hfetch hfault => rw [ofFile_of_fetch hfetch, hfault]

/-- There is a value in a file that is not unusable, so it is either a mapping or null. -/
theorem loads_of_value {value : Json} {settings : Settings} {entries : List Log.Entry}
    (h : valueIn? read d path = some value)
    (hmapping : ∀ members, value = .object members → settings = members)
    (hempty : (∀ members, value ≠ .object members) → settings = [])
    (husable : value = .null ∨ ∃ members, value = .object members)
    (hwarns : ∀ e ∈ entries, e.level ≠ .warning) : Loads read d path settings entries := by
  refine ⟨fun members hmembers => ?_, fun hnone => ?_, ?_⟩
  · exact hmapping members (Option.some.inj (h.symm.trans hmembers))
  · exact hempty fun members hvalue => hnone members (hvalue ▸ h)
  · constructor
    · rintro ⟨e, he, hlevel⟩
      exact absurd hlevel (hwarns e he)
    · intro hunusable
      obtain ⟨hnull, hobject⟩ := hunusable value h
      rcases husable with hvalue | ⟨members, hvalue⟩
      · exact absurd hvalue hnull
      · exact absurd hvalue (hobject members)

theorem loadFile_loads (h : ∀ fault, ¬ Breaks read escape p.disk path fault) :
    ∃ settings entries q, runFrom (loadFile read escape path) s p = (.ok settings, q) ∧
      q.entries = p.entries ++ entries ∧ Loads read p.disk path settings entries := by
  have hrun := @runFrom_loadFile ε read escape path s p
  have hfinds := finds_ofFile read escape p.disk path
  generalize ofFile read escape p.disk path = found at hrun hfinds
  cases hfinds with
  | mapping hvalue =>
    refine ⟨_, [⟨.debug, _⟩], _, hrun, rfl, loads_of_value hvalue ?_ ?_ (.inr ⟨_, rfl⟩) ?_⟩
    · rintro _ ⟨⟩
      rfl
    · intro hobject
      exact absurd rfl (hobject _)
    · intro e he
      rw [List.mem_singleton.1 he]
      exact (by decide : Log.Level.debug ≠ Log.Level.warning)
  | null hvalue =>
    refine ⟨_, [], _, hrun, (List.append_nil _).symm, loads_of_value hvalue nofun ?_ (.inl rfl) ?_⟩
    · exact fun _ => rfl
    · exact fun e he => absurd he List.not_mem_nil
  | unusable hunusable =>
    refine ⟨_, [⟨.warning, _⟩], _, hrun, rfl, ?_, fun _ => rfl, ?_⟩
    · intro members hvalue
      exact absurd rfl ((hunusable _ hvalue).2 members)
    · exact ⟨fun _ => hunusable, fun _ => ⟨_, List.mem_singleton_self _, rfl⟩⟩
  | breaks hbreaks => exact absurd hbreaks (h _)

/-! ## The chosen file -/

theorem runFrom_loadBy (read : DocumentReader ε) (escape : ε → Fault)
    (directory given : Option String) (s : Surroundings) (p : Progress) :
    runFrom (loadBy read escape directory given) s p =
      match chosen? p.disk directory given with
      | none => (.ok [], p)
      | some path => runFrom (loadFile read escape path) s p := by
  have hdisk : runFrom Job.disk s p = (.ok p.disk, p) := rfl
  rw [loadBy, runFrom_bind, hdisk]
  dsimp only
  rcases chosen? p.disk directory given with _ | path <;> rfl

/-- Loading by a reader of documents ends in a fault exactly if the chosen file breaks it, and has
then done nothing.  In all other cases it gives the mapping in the chosen file, if there is one, and
else no settings; a warning is reported exactly if a file is chosen that holds neither a mapping nor
null. -/
theorem loadBy_outcome (read : DocumentReader ε) (escape : ε → Fault)
    (directory given : Option String) (s : Surroundings) (p : Progress) :
    (∃ path fault, chosen? p.disk directory given = some path ∧
      Breaks read escape p.disk path fault ∧
      runFrom (loadBy read escape directory given) s p = (.error fault, p)) ∨
    (∀ path, chosen? p.disk directory given = some path →
      ∀ fault, ¬ Breaks read escape p.disk path fault) ∧
    ∃ settings entries q,
      runFrom (loadBy read escape directory given) s p = (.ok settings, q) ∧
      q.entries = p.entries ++ entries ∧
      match chosen? p.disk directory given with
      | none => settings = [] ∧ entries = []
      | some path => Loads read p.disk path settings entries := by
  rw [runFrom_loadBy]
  rcases chosen? p.disk directory given with _ | path
  · exact .inr ⟨nofun, [], [], p, rfl, (List.append_nil _).symm, rfl, rfl⟩
  · by_cases h : ∃ fault, Breaks read escape p.disk path fault
    · obtain ⟨fault, hbreaks⟩ := h
      exact .inl ⟨path, fault, rfl, hbreaks, loadFile_breaks hbreaks⟩
    · rw [not_exists] at h
      refine .inr ⟨?_, loadFile_loads h⟩
      rintro _ ⟨⟩
      exact h

/-- The reader of texts has no other fault than that octets are no text. -/
theorem readDocument_eq_other_iff {octets : List UInt8} {fault : Text.Utf8.Fault} :
    readDocument octets = .error (.other fault) ↔ Text.Utf8.decode octets = .error fault := by
  unfold readDocument
  rcases Text.Utf8.decode octets with fault' | text
  · simp
  · dsimp only
    split <;> simp

/-- A file whose last octet belongs to no character. -/
def undecodableDisk : Disk where
  root := .directory [("bad.yaml", .file [0x61, 0x3a, 0x20, 0xff])]
  cwd := []

def plainSurroundings : Surroundings where
  clock := "12:00:00"
  duration := ⟨0⟩
  languages := []
  stamp _ := ⟨"1", "2"⟩
  key := none
  reply _ := .failure "offline"
  logFile := none

/-- Octets that are no text end the job, and nothing is reported. -/
theorem load_undecodable :
    runFrom (load none (some "bad.yaml")) plainSurroundings ⟨undecodableDisk, [], []⟩ =
      (.error (.encoding ⟨3, 0xff, 1, .invalidStart⟩), ⟨undecodableDisk, [], []⟩) := by
  have hfetch : undecodableDisk.fetch "bad.yaml".toList = .ok [0x61, 0x3a, 0x20, 0xff] := rfl
  have hfault : readDocument [0x61, 0x3a, 0x20, 0xff] =
      .error (.other ⟨3, 0xff, 1, .invalidStart⟩) := readDocument_eq_other_iff.2 (by decide)
  rw [load, runFrom_loadBy]
  exact loadFile_breaks (.reader hfetch hfault)

end Courier.Settings
