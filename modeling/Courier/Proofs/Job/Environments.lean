import Courier.Proofs.Environment.Secrecy
import Courier.Proofs.Job.Accounting
import Courier.Proofs.Job.Running
import Courier.Proofs.Text.Utf8
import Mathlib.Tactic.Common

/-!
# What becomes of environments

The documents of environments are converted one after another, and each file is called after its
document alone, wherever that stands.  `Fate` says what may become of one document, and `Exporting`
what a run does, one document at a time.  A file that has been written is kept until another document
of the same name comes (`Exporting.holds`), so that all of them survive if their names are distinct
(`convertEnvironments_survive`).  Of two that are called alike, only the second survives
(`convertEnvironments_overwrites`).
-/

namespace Courier

open Disk (Changes)
open Discovery (hasExtension)

namespace Job

variable {s : Surroundings} {p : Progress} {d d' e e' : Disk} {target : String}

/-! ## One environment -/

/-- The environment of a document is written: its own file alone changes, and then holds it. -/
structure Exported (s : Surroundings) (target : String) (document : String × Nat)
    (text : List Char) (value : Json) (d d' : Disk) : Prop where
  readText : d.readText document.1 = .ok text
  exported : (Environment.ofText (Path.stem document.1) text).exported (s.stamp document.2) =
    .ok value
  changes : Changes {(environmentTarget target document.1).toList}
    (Path.above d.cwdPath (environmentTarget target document.1).toList) d d'
  holds : d'.HoldsJson (environmentTarget target document.1) value

/-- The device breaks off the writing of the environment of a document after its file has been
opened. -/
def Spoilt (s : Surroundings) (target : String) (document : String × Nat) (d d' : Disk) : Prop :=
  ∃ text value cause, d.readText document.1 = .ok text ∧
    (Environment.ofText (Path.stem document.1) text).exported (s.stamp document.2) = .ok value ∧
    d.device.BreaksOff (Text.Utf8.encode value.fileText) cause ∧
    Disk.writeText (environmentTarget target document.1) value.fileText d =
      (.error (.ofWriting (environmentTarget target document.1) (.refused cause none)), d')

theorem Spoilt.changes {document : String × Nat} (h : Spoilt s target document d d') :
    Changes {(environmentTarget target document.1).toList}
      (Path.above d.cwdPath (environmentTarget target document.1).toList) d d' := by
  obtain ⟨_, _, _, -, -, -, hwrite⟩ := h
  exact (Disk.writes_of_writeText hwrite).changes

/-- The path of a document, or that of its file, has a null character. -/
def NullIn (d : Disk) (target document : String) : Prop :=
  '\x00' ∈ document.toList ∨ d.HasNull (environmentTarget target document)

theorem NullIn.congr {document : String} (h : NullIn d target document)
    (hcwd : d'.cwdPath = d.cwdPath) : NullIn d' target document := by
  rw [NullIn, Disk.HasNull, hcwd]
  exact h

/-- What may become of a document. -/
inductive Fate (s : Surroundings) (target document : String) (number : Nat) (d : Disk) :
    Except Fault (Option String) → Disk → Prop
  | written {text : List Char} {value : Json} {d' : Disk}
      (exported : Exported s target (document, number) text value d d') :
      Fate s target document number d (.ok (some (environmentTarget target document))) d'
  | skipped {d' : Disk} (untouched : s.Untouched d d') :
      Fate s target document number d (.ok none) d'
  | spoilt {fault : Fault} {d' : Disk} (isExpected : fault.isExpected = true)
      (spoilt : Spoilt s target (document, number) d d') :
      Fate s target document number d (.error fault) d'
  | failed {fault : Fault} {d' : Disk} (isExpected : fault.isExpected = true)
      (changes : Changes ∅ (Path.above d.cwdPath (environmentTarget target document).toList) d d') :
      Fate s target document number d (.error fault) d'
  | null {d' : Disk} (nullIn : NullIn d target document)
      (changes : Changes ∅ (Path.above d.cwdPath (environmentTarget target document).toList) d d') :
      Fate s target document number d (.error (.system .nullInPath)) d'

/-- A refusal of the system to write a file is to be expected. -/
theorem isExpected_ofWriting (path : String) (cause : SystemCause) (named : Option String) :
    (Fault.ofFile (.ofWriting path (.refused cause named))).isExpected = true := by
  rw [FileFault.ofWriting]
  split
  · rfl
  · rfl

theorem ensures_convertEnvironment (target document : String) (number : Nat) :
    Ensures s p (convertEnvironment (s.stamp number) target document) fun result q =>
      Fate s target document number p.disk result q.disk := by
  rw [convertEnvironment]
  refine ensures_readText_bind (fun text hread => ?_) fun fault hfault => ?_
  · split
    · exact ensures_reportEntries_bind fun q hq => .pure (.skipped hq)
    refine ensures_ofExcept_bind (fun value hvalue => ?_) fun rejection _ => .failed rfl (.refl _)
    refine (ensures_writeJson _ value).bind (fun _ q hq => ?_) (fun fault q hq => ?_)
    · obtain ⟨outcome, houtcome, hwrite⟩ := hq
      cases Outcome.mapError_eq_ok.1 houtcome.symm
      cases Disk.writes_of_writeText hwrite with
      | written changes read =>
        exact .pure (.written ⟨hread, hvalue, changes,
          .of_legible (Collection.legible_of_validateEnvironment hvalue) read⟩)
    · obtain ⟨outcome, houtcome, hwrite⟩ := hq
      rcases outcome with refusal | _
      · cases houtcome
        cases Disk.writes_of_writeText hwrite with
        | brokenOff hbreaks =>
          exact .spoilt (isExpected_ofWriting _ _ _)
            ⟨text, value, _, hread, hvalue, hbreaks, hwrite⟩
        | unopened changes => exact .failed (isExpected_ofWriting _ _ _) changes
        | null hasNull changes => exact .null (.inr hasNull) changes
      · cases houtcome
  · cases fault with
    | access => exact .failed rfl (.refl _)
    | nullInPath =>
      refine .null (.inl ?_) (.refl _)
      by_contra hnull
      exact Disk.avoids_readText hnull hfault

/-! ## One environment after another -/

/-- Documents from a number on are converted one after another.  Those that are written are listed
with their numbers, and so are those whose files are spoilt. -/
inductive Exporting (s : Surroundings) (target : String) :
    Nat → List String → Disk → List (String × Nat) → List (String × Nat) → Disk → Prop
  | done {number : Nat} {d d' : Disk} (untouched : s.Untouched d d') :
      Exporting s target number [] d [] [] d'
  | passed {number : Nat} {document : String} {documents : List String} {d e d' : Disk}
      {written spoilt : List (String × Nat)}
      (changes : Changes s.logged (Path.above d.cwdPath (environmentTarget target document).toList)
        d e)
      (rest : Exporting s target (number + 1) documents e written spoilt d') :
      Exporting s target number (document :: documents) d written spoilt d'
  | written {number : Nat} {document : String} {documents : List String} {d e e' d' : Disk}
      {text : List Char} {value : Json} {written spoilt : List (String × Nat)}
      (exported : Exported s target (document, number) text value d e)
      (untouched : s.Untouched e e')
      (rest : Exporting s target (number + 1) documents e' written spoilt d') :
      Exporting s target number (document :: documents) d ((document, number) :: written) spoilt d'
  | spoilt {number : Nat} {document : String} {documents : List String} {d e e' d' : Disk}
      {written spoilt : List (String × Nat)}
      (isSpoilt : Spoilt s target (document, number) d e)
      (untouched : s.Untouched e e')
      (rest : Exporting s target (number + 1) documents e' written spoilt d') :
      Exporting s target number (document :: documents) d written ((document, number) :: spoilt) d'

/-- The paths of the files of documents. -/
def targets (target : String) (documents : List (String × Nat)) : List String :=
  documents.map fun document => environmentTarget target document.1

/-- How converting documents ends, after the first of them: all have been converted, or a null
character in a path has ended it. -/
inductive Ending (d : Disk) (target : String) (documents : List String)
    (written : List (String × Nat)) : List String → Except Fault (List String) → Prop
  | finished : Ending d target documents written documents (.ok (targets target written))
  | null {first : List String} (isPrefix : first <+: documents)
      (nullIn : ∃ document ∈ first, NullIn d target document) :
      Ending d target documents written first (.error (.system .nullInPath))

theorem Ending.isPrefix {documents first : List String} {written : List (String × Nat)}
    {result : Except Fault (List String)} (h : Ending d target documents written first result) :
    first <+: documents := by
  cases h with
  | finished => exact List.prefix_rfl
  | null isPrefix => exact isPrefix

theorem ensures_convertEnvironmentsFrom (target : String) (number : Nat) (documents : List String) :
    Ensures s p (convertEnvironmentsFrom target number documents) fun result q =>
      ∃ first written spoilt, Ending p.disk target documents written first result ∧
        Exporting s target number first p.disk written spoilt q.disk := by
  induction documents generalizing number p with
  | nil => exact .pure ⟨[], [], [], .finished, .done (.refl s p.disk)⟩
  | cons document documents ih =>
    -- What one document brings is put before what the others bring.
    have hrest (before : List (String × Nat)) (q : Progress)
        (hcwd : q.disk.cwdPath = p.disk.cwdPath)
        (hstep : ∀ first written spoilt d',
          Exporting s target (number + 1) first q.disk written spoilt d' →
          ∃ spoilt', Exporting s target number (document :: first) p.disk (before ++ written)
            spoilt' d') :
        Ensures s q (do
          let rest ← convertEnvironmentsFrom target (number + 1) documents
          return targets target before ++ rest) fun result r =>
            ∃ first written spoilt, Ending p.disk target (document :: documents) written first
              result ∧ Exporting s target number first p.disk written spoilt r.disk := by
      refine (ih (number + 1)).bind (fun rest r hr => .pure ?_) (fun fault r hr => ?_)
      · obtain ⟨first, written, spoilt, hending, hr⟩ := hr
        cases hending
        obtain ⟨spoilt', hr⟩ := hstep _ _ _ _ hr
        refine ⟨_, before ++ written, spoilt', ?_, hr⟩
        rw [targets, targets, ← List.map_append]
        exact .finished
      · obtain ⟨first, written, spoilt, hending, hr⟩ := hr
        cases hending with
        | null isPrefix nullIn =>
          obtain ⟨other, hother, hnull⟩ := nullIn
          obtain ⟨spoilt', hr⟩ := hstep _ _ _ _ hr
          exact ⟨_, before ++ written, spoilt', .null (List.cons_prefix_cons.2 ⟨rfl, isPrefix⟩)
            ⟨other, List.mem_cons_of_mem _ hother, hnull.congr hcwd.symm⟩, hr⟩
    rw [convertEnvironmentsFrom, ensures_surroundings_bind]
    refine (ensures_convertEnvironment target document number).attempt_bind
      (fun ended q hq hexpected => ?_) fun fault q hq hunexpected => ?_
    · cases hq with
      | written exported =>
        refine ensures_reportEntries_bind fun r hr => hrest [(document, number)] r ?_ ?_
        · rw [hr.changes.cwdPath_eq, exported.changes.cwdPath_eq]
        · exact fun _ _ spoilt _ hrun => ⟨spoilt, .written exported hr hrun⟩
      | skipped untouched =>
        refine hrest [] q untouched.changes.cwdPath_eq fun _ _ spoilt _ hrun => ⟨spoilt, ?_⟩
        exact .passed (untouched.changes.mono subset_rfl (Set.empty_subset _)) hrun
      | spoilt _ isSpoilt =>
        refine ensures_reportEntries_bind fun r hr => hrest [] r ?_ ?_
        · rw [hr.changes.cwdPath_eq, isSpoilt.changes.cwdPath_eq]
        · exact fun _ _ spoilt _ hrun =>
            ⟨(document, number) :: spoilt, .spoilt isSpoilt hr hrun⟩
      | failed _ changes =>
        refine ensures_reportEntries_bind fun r hr => hrest [] r ?_ ?_
        · rw [hr.changes.cwdPath_eq, changes.cwdPath_eq]
        · exact fun _ _ spoilt _ hrun => ⟨spoilt, .passed
            ((changes.mono (Set.empty_subset _) subset_rfl).trans
              (hr.changes.mono subset_rfl (Set.empty_subset _))) hrun⟩
      | null => cases hexpected _ rfl
    · cases hq with
      | spoilt isExpected => cases hunexpected.symm.trans isExpected
      | failed isExpected => cases hunexpected.symm.trans isExpected
      | null nullIn changes =>
        exact ⟨[document], [], [], .null (List.cons_prefix_cons.2 ⟨rfl, List.nil_prefix⟩)
          ⟨document, List.mem_singleton_self _, nullIn⟩,
          .passed (changes.mono (Set.empty_subset _) subset_rfl) (.done (.refl s q.disk))⟩

/-- The documents of the environments of a collection. -/
def environmentDocuments (d : Disk) (directory : String) : List String :=
  (Discovery.documents d [] (Path.under directory Discovery.environmentsFolder)).toOption.getD []

/-- Environments are converted to the end, if no path has a null character: no other fault of one
of them ends that. -/
theorem ensures_convertEnvironments (directory target : String) :
    Ensures s p (convertEnvironments directory target) fun result q =>
      ∃ first written spoilt,
        Ending p.disk target (environmentDocuments p.disk directory) written first result ∧
        Exporting s target 0 first p.disk written spoilt q.disk := by
  rw [convertEnvironments, ensures_disk_bind]
  dsimp only
  rw [environmentDocuments, Discovery.documents, Disk.isDirectory]
  have hnone : Ensures s p (do
      report .debug "No environments folder found, skipping environment conversion"
      return []) fun result q =>
        ∃ first written spoilt, Ending p.disk target [] written first result ∧
          Exporting s target 0 first p.disk written spoilt q.disk :=
    ensures_reportEntries_bind fun q hq => .pure ⟨[], [], [], .finished, .done hq⟩
  rcases p.disk.find (Path.under directory Discovery.environmentsFolder).toList with cause | entry
  · exact hnone
  · cases entry with
    | file content => exact hnone
    | directory entries => exact ensures_convertEnvironmentsFrom target 0 _

/-! ## What has changed -/

variable {number : Nat} {documents : List String} {written spoilt : List (String × Nat)}

theorem mem_targets {document : String × Nat} (h : document ∈ written) :
    environmentTarget target document.1 ∈ targets target written :=
  List.mem_map.2 ⟨document, h, rfl⟩

theorem targets_subset (h : spoilt ⊆ written) :
    targets target spoilt ⊆ targets target written := List.map_subset _ h

/-- What a document whose own file changes is followed by. -/
theorem changes_own_bind {document : String × Nat} {made : Set Path.Chars}
    {others all : List (String × Nat)}
    (hchanges : Changes {(environmentTarget target document.1).toList}
      (Path.above d.cwdPath (environmentTarget target document.1).toList) d e)
    (huntouched : s.Untouched e e') (hown : document ∈ all) (hothers : others ⊆ all)
    (hmade : ∀ document, Path.above d.cwdPath (environmentTarget target document).toList ⊆ made)
    (hrest : (∀ document,
        Path.above e'.cwdPath (environmentTarget target document).toList ⊆ made) →
      Changes (s.logged ∪ filesOf (targets target others)) made e' d') :
    Changes (s.logged ∪ filesOf (targets target all)) made d d' := by
  rw [huntouched.changes.cwdPath_eq, hchanges.cwdPath_eq] at hrest
  have hfile : {(environmentTarget target document.1).toList} ⊆
      s.logged ∪ filesOf (targets target all) :=
    Set.singleton_subset_iff.2 (.inr (mem_filesOf.2 (mem_targets hown)))
  have hfiles : s.logged ∪ filesOf (targets target others) ⊆
      s.logged ∪ filesOf (targets target all) :=
    Set.union_subset_union_right _ (filesOf_mono (targets_subset hothers))
  exact ((hchanges.mono hfile (hmade document.1)).trans huntouched.changes_of).trans
    ((hrest hmade).mono hfiles subset_rfl)

theorem subset_append_cons (document : String × Nat) :
    written ++ spoilt ⊆ written ++ document :: spoilt :=
  ((List.sublist_cons_self document spoilt).append_left written).subset

/-- At most the files of documents that are written or spoilt have changed. -/
theorem Exporting.changes {made : Set Path.Chars}
    (h : Exporting s target number documents d written spoilt d')
    (hmade : ∀ document, Path.above d.cwdPath (environmentTarget target document).toList ⊆ made) :
    Changes (s.logged ∪ filesOf (targets target (written ++ spoilt))) made d d' := by
  induction h with
  | done untouched => exact untouched.changes_of
  | @passed number document _ _ _ _ _ _ changes _ ih =>
    rw [changes.cwdPath_eq] at ih
    exact (changes.mono Set.subset_union_left (hmade document)).trans (ih hmade)
  | written exported untouched _ ih =>
    exact changes_own_bind exported.changes untouched List.mem_cons_self
      (List.subset_cons_self _ _) hmade ih
  | spoilt isSpoilt untouched _ ih =>
    exact changes_own_bind isSpoilt.changes untouched
      (List.mem_append_right _ List.mem_cons_self) (subset_append_cons _) hmade ih

theorem Exporting.sublist (h : Exporting s target number documents d written spoilt d') :
    written.Sublist (documents.zipIdx number) := by
  induction h with
  | done => exact .slnil
  | passed _ _ ih => exact ih.cons _
  | written _ _ _ ih => exact ih.cons_cons _
  | spoilt _ _ _ ih => exact ih.cons _

/-- A document is written or spoilt once at most. -/
theorem Exporting.subperm (h : Exporting s target number documents d written spoilt d') :
    (written ++ spoilt).Subperm (documents.zipIdx number) := by
  induction h with
  | done => exact .refl _
  | passed _ _ ih => exact ih.trans (List.sublist_cons_self _ _).subperm
  | written _ _ _ ih => exact (List.subperm_cons _).2 ih
  | spoilt _ _ _ ih => exact List.perm_middle.subperm.trans ((List.subperm_cons _).2 ih)

theorem Exporting.le_number (h : Exporting s target number documents d written spoilt d')
    {document : String × Nat} (hmem : document ∈ written ++ spoilt) : number ≤ document.2 :=
  List.le_snd_of_mem_zipIdx (h.subperm.subset hmem)

/-- It is the device that spoils what is spoilt. -/
theorem Exporting.spoils (h : Exporting s target number documents d written spoilt d') :
    ∀ document ∈ spoilt, ∃ e e', e.device = d.device ∧ Spoilt s target document e e' := by
  induction h with
  | done => exact nofun
  | passed changes _ ih =>
    rw [changes.device_eq] at ih
    exact ih
  | written exported untouched _ ih =>
    rw [untouched.changes.device_eq, exported.changes.device_eq] at ih
    exact ih
  | spoilt isSpoilt untouched _ ih =>
    rw [untouched.changes.device_eq, isSpoilt.changes.device_eq] at ih
    exact List.forall_mem_cons.2 ⟨⟨_, _, rfl, isSpoilt⟩, ih⟩

/-! ## Names -/

theorem isName_environmentName (document : String) :
    Path.IsName (Path.stem document ++ environmentSuffix) := by
  have hslash : '/' ∉ (Path.stem document).toList := by
    rw [Path.stem, String.toList_ofList]
    exact fun h => Path.slash_not_mem_baseName _ ((Path.splitBase_prefix _).subset h)
  have hlength : 3 ≤ (Path.stem document ++ environmentSuffix).toList.length := by
    rw [String.toList_append, List.length_append]
    exact Nat.le_add_left_of_le (by decide)
  refine ⟨?_, ?_, ?_, ?_⟩
  · intro hnil
    simp [hnil] at hlength
  · rw [String.toList_append, List.mem_append, not_or]
    exact ⟨hslash, by decide⟩
  · intro hdot
    simp [hdot] at hlength
  · intro hdots
    simp [hdots] at hlength

theorem baseName_environmentTarget (target document : String) :
    Path.baseName (environmentTarget target document).toList =
      (Path.stem document ++ environmentSuffix).toList := by
  rw [environmentTarget, Path.toList_under, Path.baseName_join _ (isName_environmentName document)]

/-- Two files of environments are the same if and only if their documents are called alike. -/
theorem environmentTarget_eq_iff {document other : String} :
    environmentTarget target document = environmentTarget target other ↔
      Path.stem document = Path.stem other := by
  constructor
  · intro h
    have hbase := congrArg (fun path : String => Path.baseName path.toList) h
    rw [baseName_environmentTarget, baseName_environmentTarget, String.toList_append,
      String.toList_append, List.append_cancel_right_eq] at hbase
    exact String.toList_inj.1 hbase
  · intro h
    rw [environmentTarget, environmentTarget, h]

theorem nodup_targets_iff :
    (targets target written).Nodup ↔ (written.map fun document => Path.stem document.1).Nodup := by
  simp only [targets, List.Nodup, List.pairwise_map, ne_eq, environmentTarget_eq_iff]

/-- The file of an environment is called otherwise than every document. -/
theorem baseName_environmentTarget_ne {document path : String} (h : hasExtension path = true) :
    Path.baseName (environmentTarget target document).toList ≠ Path.baseName path.toList := by
  intro heq
  have hpath := Path.suffix_baseName (by decide) (List.isSuffixOf_iff_suffix.1 h)
  rw [← heq, baseName_environmentTarget, String.toList_append] at hpath
  have hends : Discovery.extension.toList <:+ environmentSuffix.toList :=
    List.suffix_of_suffix_length_le hpath (List.suffix_append _ _) (by decide)
  exact absurd hends (by decide)

/-- The log file is called neither like a document nor like the file of an environment. -/
def LogsApart (s : Surroundings) : Prop :=
  ∀ file ∈ s.logged, ¬ Discovery.extension.toList <:+ file ∧ ¬ environmentSuffix.toList <:+ file

theorem LogsApart.baseName_ne_document (h : LogsApart s) {file : Path.Chars} (hfile : file ∈ s.logged)
    {path : String} (hpath : hasExtension path = true) :
    Path.baseName file ≠ Path.baseName path.toList := by
  intro heq
  have hends := Path.suffix_baseName (by decide) (List.isSuffixOf_iff_suffix.1 hpath)
  rw [← heq] at hends
  exact (h file hfile).1 (hends.trans (Path.baseName_suffix file))

theorem LogsApart.baseName_ne_target (h : LogsApart s) {file : Path.Chars} (hfile : file ∈ s.logged)
    (document : String) :
    Path.baseName file ≠ Path.baseName (environmentTarget target document).toList := by
  intro heq
  have hends : environmentSuffix.toList <:+ Path.baseName file := by
    rw [heq, baseName_environmentTarget, String.toList_append]
    exact List.suffix_append _ _
  exact (h file hfile).2 (hends.trans (Path.baseName_suffix file))

/-! ## What survives -/

/-- The environment of a document is where it is to be, as the document says. -/
def Holds (s : Surroundings) (target : String) (d : Disk) (document : String × Nat) : Prop :=
  ∃ text value, d.readText document.1 = .ok text ∧
    (Environment.ofText (Path.stem document.1) text).exported (s.stamp document.2) = .ok value ∧
    d.HoldsJson (environmentTarget target document.1) value

/-- Environments that are called alike survive together only if they are the same. -/
theorem Holds.toJson_eq {document other : String × Nat} {text text' : List Char}
    (h : Holds s target d document) (h' : Holds s target d other)
    (hread : d.readText document.1 = .ok text) (hread' : d.readText other.1 = .ok text')
    (hstem : Path.stem document.1 = Path.stem other.1) :
    (Environment.ofText (Path.stem document.1) text).toJson (s.stamp document.2) =
      (Environment.ofText (Path.stem other.1) text').toJson (s.stamp other.2) := by
  obtain ⟨_, value, htext, hvalue, hheld⟩ := h
  obtain ⟨_, value', htext', hvalue', hheld'⟩ := h'
  cases hread.symm.trans htext
  cases hread'.symm.trans htext'
  rw [Environment.exported_eq] at hvalue hvalue'
  cases hvalue
  cases hvalue'
  rw [environmentTarget_eq_iff.2 hstem] at hheld
  exact hheld.unique hheld'

/-- Documents are kept by what is written. -/
theorem readText_of_changes {made : Set Path.Chars} (hlog : LogsApart s)
    (h : Changes (s.logged ∪ filesOf (targets target written)) made d d') {path : String}
    {text : List Char} (hpath : hasExtension path = true) (hread : d.readText path = .ok text) :
    d'.readText path = .ok text := by
  refine h.readText hread fun file hfile => ?_
  rcases hfile with hfile | hfile
  · exact hlog.baseName_ne_document hfile hpath
  · obtain ⟨other, -, hother⟩ := List.mem_map.1 hfile
    rw [← String.toList_ofList (l := file), ← hother]
    exact baseName_environmentTarget_ne hpath

/-- The file of an environment is kept while no other document of its name comes. -/
theorem holdsJson_of_changes {made : Set Path.Chars} (hlog : LogsApart s)
    (h : Changes (s.logged ∪ filesOf (targets target written)) made d d') {document : String}
    (hother : ∀ other ∈ written, Path.stem other.1 ≠ Path.stem document) {value : Json}
    (hheld : d.HoldsJson (environmentTarget target document) value) :
    d'.HoldsJson (environmentTarget target document) value := by
  refine hheld.of_changes h fun file hfile => ?_
  rcases hfile with hfile | hfile
  · exact hlog.baseName_ne_target hfile document
  · obtain ⟨other, hmem, hfile⟩ := List.mem_map.1 hfile
    rw [← String.toList_ofList (l := file), ← hfile, baseName_environmentTarget,
      baseName_environmentTarget]
    intro heq
    rw [String.toList_append, String.toList_append, List.append_cancel_right_eq] at heq
    exact hother other hmem (String.toList_inj.1 heq)

/-- No document after one is called like it, among those that change their files. -/
def LastOfName (documents : List (String × Nat)) (document : String × Nat) : Prop :=
  ∀ other ∈ documents, document.2 < other.2 → Path.stem other.1 ≠ Path.stem document.1

theorem LastOfName.mono {documents others : List (String × Nat)} {document : String × Nat}
    (h : LastOfName documents document) (hsubset : others ⊆ documents) :
    LastOfName others document := fun other hother => h other (hsubset hother)

/-- An environment that is written survives if no other document of its name is converted after it. -/
theorem Exporting.holds (h : Exporting s target number documents d written spoilt d')
    (hlog : LogsApart s) (hdocuments : ∀ path ∈ documents, hasExtension path = true)
    {document : String × Nat} (hmem : document ∈ written)
    (hlast : LastOfName (written ++ spoilt) document) : Holds s target d' document := by
  induction h with
  | done => cases hmem
  | passed _ _ ih =>
    exact ih (fun path hpath => hdocuments path (List.mem_cons_of_mem _ hpath)) hmem hlast
  | @written number name _ d e e' d' text value written spoilt exported untouched rest ih =>
    rcases List.mem_cons.1 hmem with rfl | hmem
    · have hrest : Changes (s.logged ∪ filesOf (targets target (written ++ spoilt))) Set.univ e d' :=
        untouched.changes_of.trans (rest.changes fun _ => Set.subset_univ _)
      have hname : hasExtension name = true := hdocuments name List.mem_cons_self
      have hread : e.readText name = .ok text := by
        refine exported.changes.readText exported.readText fun file hfile => ?_
        rw [Set.mem_singleton_iff.1 hfile]
        exact baseName_environmentTarget_ne hname
      have hother : ∀ other ∈ written ++ spoilt, Path.stem other.1 ≠ Path.stem name :=
        fun other hother => hlast other (List.mem_cons_of_mem _ hother) (rest.le_number hother)
      exact ⟨text, value, readText_of_changes hlog hrest hname hread, exported.exported,
        holdsJson_of_changes hlog hrest hother exported.holds⟩
    · exact ih (fun path hpath => hdocuments path (List.mem_cons_of_mem _ hpath)) hmem
        (hlast.mono (List.subset_cons_self _ _))
  | spoilt _ _ _ ih =>
    exact ih (fun path hpath => hdocuments path (List.mem_cons_of_mem _ hpath)) hmem
      (hlast.mono (subset_append_cons _))

/-! ## All environments -/

theorem hasExtension_of_mem_environmentDocuments {directory path : String}
    (h : path ∈ environmentDocuments d directory) : hasExtension path = true := by
  rw [environmentDocuments] at h
  rcases hfound : Discovery.documents d [] (Path.under directory Discovery.environmentsFolder) with
    fault | found
  · rw [hfound] at h
    cases h
  · rw [hfound] at h
    exact Discovery.hasExtension_of_mem_documents hfound h

/-- Environments are converted to the end, unless a path has a null character, and the paths that are
returned are those of the documents that have been written.  The file of each of them holds its
environment unless a later one is called alike that has been written, too, or whose file has been
spoilt because its writing broke off; so all environments that are written survive if the names are
distinct, which without a spoilt file is also when the returned paths are. -/
theorem convertEnvironments_survive (hlog : LogsApart s) (directory target : String)
    (p : Progress) :
    ∃ first written spoilt result q,
      runFrom (convertEnvironments directory target) s p = (result, q) ∧
      Ending p.disk target (environmentDocuments p.disk directory) written first result ∧
      written.Sublist first.zipIdx ∧ (written ++ spoilt).Subperm first.zipIdx ∧
      (∀ document ∈ spoilt, ∃ e e',
        e.device = p.disk.device ∧ Spoilt s target document e e') ∧
      ((targets target written).Nodup ↔
        (written.map fun document => Path.stem document.1).Nodup) ∧
      (∀ document ∈ written, LastOfName (written ++ spoilt) document →
        Holds s target q.disk document) ∧
      ((targets target (written ++ spoilt)).Nodup →
        ∀ document ∈ written, Holds s target q.disk document) ∧
      ∀ path text, hasExtension path = true → p.disk.readText path = .ok text →
        q.disk.readText path = .ok text := by
  have hensures := ensures_convertEnvironments (s := s) (p := p) directory target
  rw [Ensures] at hensures
  rcases hresult : runFrom (convertEnvironments directory target) s p with ⟨result, q⟩
  rw [hresult] at hensures
  obtain ⟨first, written, spoilt, hending, hrun⟩ := hensures
  have hfirst := hending.isPrefix
  have hholds : ∀ document ∈ written, LastOfName (written ++ spoilt) document →
      Holds s target q.disk document := fun document hmem =>
    hrun.holds hlog (fun path hpath =>
      hasExtension_of_mem_environmentDocuments (hfirst.subset hpath)) hmem
  refine ⟨first, written, spoilt, result, q, rfl, hending, hrun.sublist, hrun.subperm, hrun.spoils,
    nodup_targets_iff, hholds, ?_, ?_⟩
  · intro hnodup document hmem
    refine hholds document hmem fun other hother hlater heq => ?_
    -- Of distinct names, two that are alike belong to one document, which has one number.
    rw [nodup_targets_iff] at hnodup
    have hsame := List.inj_on_of_nodup_map hnodup hother (List.mem_append_left _ hmem) heq
    rw [hsame] at hlater
    exact lt_irrefl _ hlater
  · intro path text hpath hread
    exact readText_of_changes hlog (hrun.changes fun _ => Set.subset_univ _) hpath hread

/-- The document of an environment with one variable. -/
def hostDocument (host : String) : List Char :=
  ("vars \x7b\n  host: " ++ host ++ "\n\x7d\n").toList

/-- A collection with one environment in the folder for them, and one in a folder below that. -/
def nestedDisk (name : String) : Disk where
  root := .directory [("c", .directory [("environments", .directory [
    ("dev.bru", .file (Text.Utf8.encode (hostDocument "one"))),
    ("sub", .directory [(name, .file (Text.Utf8.encode (hostDocument "two")))])])])]
  cwd := []

/-- The environments that are found are converted. -/
theorem runFrom_convertEnvironments {directory : String} {found : List String}
    (h : Discovery.documents p.disk [] (Path.under directory Discovery.environmentsFolder) =
      .ok found) (target : String) :
    runFrom (convertEnvironments directory target) s p =
      runFrom (convertEnvironmentsFrom target 0 found) s p := by
  have hfolder : p.disk.isDirectory
      (Path.under directory Discovery.environmentsFolder).toList = true := by
    rcases hfind : p.disk.find (Path.under directory Discovery.environmentsFolder).toList with
      cause | content | entries
    · rw [Discovery.documents, hfind] at h
      cases h
    · rw [Discovery.documents, hfind] at h
      cases h
    · rw [Disk.isDirectory, hfind]
  have hdisk : runFrom disk s p = (.ok p.disk, p) := rfl
  rw [convertEnvironments, runFrom_bind, hdisk]
  simp only [hfolder, h, Bool.not_true, Bool.false_eq_true, if_false]
  rfl

theorem documents_nestedDisk {name : String} {found : List String}
    (hfound : Discovery.documentsIn [] (Path.under "c" Discovery.environmentsFolder)
      [("dev.bru", .file (Text.Utf8.encode (hostDocument "one"))),
        ("sub", .directory [(name, .file (Text.Utf8.encode (hostDocument "two")))])] = found)
    (hsorted : found.Pairwise fun a b => decide (a ≤ b) = true) :
    Discovery.documents (nestedDisk name) [] (Path.under "c" Discovery.environmentsFolder) =
      .ok found := by
  have hfind : (nestedDisk name).find (Path.under "c" Discovery.environmentsFolder).toList =
      .ok (.directory [("dev.bru", .file (Text.Utf8.encode (hostDocument "one"))),
        ("sub", .directory [(name, .file (Text.Utf8.encode (hostDocument "two")))])]) := rfl
  rw [Discovery.documents, hfind]
  dsimp only
  rw [hfound, Discovery.sorted, List.mergeSort_of_pairwise hsorted]

theorem logsApart_pongSurroundings : LogsApart pongSurroundings := by
  rintro file ⟨⟩
  decide

/-- When as many documents are written as there are, none is spoilt. -/
theorem spoilt_eq_nil {paths : List String} (h : (written ++ spoilt).Subperm documents.zipIdx)
    (hpaths : targets target written = paths) (hlength : documents.length ≤ paths.length) :
    spoilt = [] := by
  have hle := h.length_le
  rw [List.length_append, List.length_zipIdx] at hle
  rw [← hpaths, targets, List.length_map] at hlength
  exact List.eq_nil_of_length_eq_zero (by omega)

theorem convertEnvironments_survive_prod :
    LogsApart pongSurroundings ∧ ∃ written q,
      runFrom (convertEnvironments "c" "out") pongSurroundings ⟨nestedDisk "prod.bru", [], []⟩ =
        (.ok (targets "out" written), q) ∧
      targets "out" written =
        ["out/dev.postman_environment.json", "out/prod.postman_environment.json"] ∧
      ∀ document ∈ written, Holds pongSurroundings "out" q.disk document := by
  obtain ⟨first, written, spoilt, result, q, hrun, hending, -, hsubperm, -, -, -, hall, -⟩ :=
    convertEnvironments_survive logsApart_pongSurroundings "c" "out" ⟨nestedDisk "prod.bru", [], []⟩
  have hfound : Discovery.documents (nestedDisk "prod.bru") []
      (Path.under "c" Discovery.environmentsFolder) =
      .ok ["c/environments/dev.bru", "c/environments/sub/prod.bru"] :=
    documents_nestedDisk (by decide +kernel) (by decide +kernel)
  have hpaths : (runFrom (convertEnvironmentsFrom "out" 0
      ["c/environments/dev.bru", "c/environments/sub/prod.bru"]) pongSurroundings
      ⟨nestedDisk "prod.bru", [], []⟩).1 =
      .ok ["out/dev.postman_environment.json", "out/prod.postman_environment.json"] := by
    decide +kernel
  rw [← runFrom_convertEnvironments hfound, hrun] at hpaths
  rw [environmentDocuments, hfound] at hending
  replace hpaths : result = _ := hpaths
  cases hending with
  | null => cases hpaths
  | finished =>
    have htargets : targets "out" written = _ := Except.ok.inj hpaths
    have hspoilt := spoilt_eq_nil hsubperm htargets (by decide)
    refine ⟨logsApart_pongSurroundings, written, q, hrun, htargets, hall ?_⟩
    rw [hspoilt, List.append_nil, htargets]
    decide

/-- Two environments that are called alike are both written, at one path. -/
theorem exporting_nestedDisk :
    ∃ q, runFrom (convertEnvironments "c" "out") pongSurroundings
        ⟨nestedDisk "dev.bru", [], []⟩ =
        (.ok ["out/dev.postman_environment.json", "out/dev.postman_environment.json"], q) ∧
      Exporting pongSurroundings "out" 0 ["c/environments/dev.bru", "c/environments/sub/dev.bru"]
        (nestedDisk "dev.bru")
        [("c/environments/dev.bru", 0), ("c/environments/sub/dev.bru", 1)] [] q.disk := by
  have hfound : Discovery.documents (nestedDisk "dev.bru") []
      (Path.under "c" Discovery.environmentsFolder) =
      .ok ["c/environments/dev.bru", "c/environments/sub/dev.bru"] :=
    documents_nestedDisk (by decide +kernel) (by decide +kernel)
  have hpaths : (runFrom (convertEnvironmentsFrom "out" 0
      ["c/environments/dev.bru", "c/environments/sub/dev.bru"]) pongSurroundings
      ⟨nestedDisk "dev.bru", [], []⟩).1 =
      .ok ["out/dev.postman_environment.json", "out/dev.postman_environment.json"] := by
    decide +kernel
  have hensures : Ensures pongSurroundings ⟨nestedDisk "dev.bru", [], []⟩
      (convertEnvironmentsFrom "out" 0 ["c/environments/dev.bru", "c/environments/sub/dev.bru"])
      _ := ensures_convertEnvironmentsFrom "out" 0 _
  rw [runFrom_convertEnvironments hfound]
  rw [Ensures] at hensures
  rcases hrunFrom : runFrom (convertEnvironmentsFrom "out" 0
    ["c/environments/dev.bru", "c/environments/sub/dev.bru"]) pongSurroundings
    ⟨nestedDisk "dev.bru", [], []⟩ with ⟨result, q⟩
  rw [hrunFrom] at hpaths hensures
  cases hpaths
  obtain ⟨first, written, spoilt, hending, hrun⟩ := hensures
  generalize hresult : (Except.ok ["out/dev.postman_environment.json",
    "out/dev.postman_environment.json"] : Except Fault (List String)) = result at hending
  cases hending with
  | null => cases hresult
  | finished =>
    have htargets := (Except.ok.inj hresult).symm
    have hspoilt := spoilt_eq_nil hrun.subperm htargets (by decide)
    have hlength := congrArg List.length htargets
    rw [targets, List.length_map] at hlength
    have hwritten : written =
        [("c/environments/dev.bru", 0), ("c/environments/sub/dev.bru", 1)] :=
      hrun.sublist.eq_of_length hlength
    rw [hwritten, hspoilt] at hrun
    exact ⟨q, rfl, hrun⟩

/-- Of two environments that are called alike, the first is lost: both are reported under one path,
and the file there is that of the second. -/
theorem convertEnvironments_overwrites :
    ∃ q, runFrom (convertEnvironments "c" "out") pongSurroundings
        ⟨nestedDisk "dev.bru", [], []⟩ =
        (.ok ["out/dev.postman_environment.json", "out/dev.postman_environment.json"], q) ∧
      q.disk.readText "c/environments/dev.bru" = .ok (hostDocument "one") ∧
      ¬ Holds pongSurroundings "out" q.disk ("c/environments/dev.bru", 0) ∧
      Holds pongSurroundings "out" q.disk ("c/environments/sub/dev.bru", 1) := by
  obtain ⟨q, hresult, hrun⟩ := exporting_nestedDisk
  have hread (path : String) (host : String) (hpath : hasExtension path = true)
      (h : (nestedDisk "dev.bru").readText path = .ok (hostDocument host)) :
      q.disk.readText path = .ok (hostDocument host) :=
    readText_of_changes logsApart_pongSurroundings (hrun.changes fun _ => Set.subset_univ _) hpath h
  have hone := hread "c/environments/dev.bru" "one" (by decide) (by decide +kernel)
  have htwo := hread "c/environments/sub/dev.bru" "two" (by decide) (by decide +kernel)
  have hlast : LastOfName [("c/environments/dev.bru", 0), ("c/environments/sub/dev.bru", 1)]
      ("c/environments/sub/dev.bru", 1) := by
    unfold LastOfName
    decide
  have hsecond : Holds pongSurroundings "out" q.disk ("c/environments/sub/dev.bru", 1) :=
    hrun.holds logsApart_pongSurroundings (by decide)
      (List.mem_cons_of_mem _ (List.mem_singleton_self _)) hlast
  refine ⟨q, hresult, hone, fun hfirst => ?_, hsecond⟩
  have hvalues := congrArg (Json.printAt Json.fileLayout 0)
    (hfirst.toJson_eq hsecond hone htwo (by decide +kernel))
  revert hvalues
  decide +kernel

end Job

end Courier
