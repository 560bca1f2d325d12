import Courier.Files.Access
import Courier.Proofs.Outcome
import Mathlib.Tactic.Common

/-!
# Writing a file

`write_cases` says what can come of writing a file: it is not opened, and the disk stays as it is,
or it is opened and then holds a first part of what was to be written, which is all of it unless
writing broke off.

What is read elsewhere stays as it is (`Apart.fetch`).  This follows from `Disk.Apart`: a disk before
and after writing differ at one way, at which neither of them has a directory, so that every path
that can be followed in the one can be followed in the other.
-/

namespace Courier

open Outcome (Avoids avoids_mapError avoids_ok bind_eq_ok mapError_eq_ok)

namespace Entry

/-- What is seen of an entry without going into it: the content of a file. -/
def face : Entry → Option (List UInt8)
  | .file content => some content
  | .directory _ => none

theorem at?_append (way way' : List String) (e : Entry) :
    e.at? (way ++ way') = (e.at? way).bind (at? way') := by
  induction way generalizing e with
  | nil => rfl
  | cons name way ih =>
    rw [List.cons_append, at?, at?, Option.bind_assoc]
    exact Option.bind_congr fun child _ => ih child

theorem at?_cons_directory (name : String) (way : List String) (entries : List (String × Entry)) :
    (directory entries).at? (name :: way) = (entries.lookup name).bind (at? way) := rfl

theorem exists_directory_of_at?_dropLast {e : Entry} {name : String} {way : List String}
    {entries : List (String × Entry)}
    (h : e.at? (name :: way).dropLast = some (.directory entries)) :
    ∃ entries', e = .directory entries' := by
  rcases e with content | entries'
  · rcases way with _ | ⟨next, way⟩
    · cases h
    · cases h
  · exact ⟨entries', rfl⟩

/-- What is put at the end of a way is there, if the directory around it is. -/
theorem at?_putAt {value e : Entry} {way : List String} {entries : List (String × Entry)}
    (h : e.at? way.dropLast = some (.directory entries)) :
    (putAt value way e).at? way = some value := by
  induction way generalizing e with
  | nil => rfl
  | cons name way ih =>
    obtain ⟨siblings, rfl⟩ := exists_directory_of_at?_dropLast h
    rw [putAt, at?_cons_directory, Members.lookup_put, if_pos rfl, Option.bind_some]
    rcases way with _ | ⟨next, way⟩
    · rfl
    · rw [List.dropLast_cons_cons, at?_cons_directory] at h
      obtain ⟨below, hbelow, h⟩ := Option.bind_eq_some_iff.1 h
      rw [hbelow]
      exact ih h

/-- Putting something that holds nothing, where nothing is held, changes nothing that is seen
elsewhere. -/
theorem face_at?_putAt {value e : Entry} {way other : List String}
    {entries : List (String × Entry)} (hvalue : ∀ name, value.child? name = none)
    (hdirectory : e.at? way.dropLast = some (.directory entries))
    (hfile : ∀ entries, e.at? way ≠ some (.directory entries)) (hne : other ≠ way) :
    ((putAt value way e).at? other).map face = (e.at? other).map face := by
  induction way generalizing e other with
  | nil => exact absurd hdirectory (hfile entries)
  | cons name way ih =>
    obtain ⟨siblings, rfl⟩ := exists_directory_of_at?_dropLast hdirectory
    rw [putAt]
    rcases other with _ | ⟨first, other⟩
    · rfl
    rw [at?_cons_directory, at?_cons_directory, Members.lookup_put]
    by_cases hfirst : first = name
    · subst hfirst
      have hother : other ≠ way := fun h => hne (h ▸ rfl)
      rw [if_pos rfl, Option.bind_some]
      rw [at?_cons_directory] at hfile
      rcases way with _ | ⟨next, way⟩
      · -- Nothing is below what is put, and nothing was below what stood there before.
        obtain ⟨next, other, rfl⟩ := List.exists_cons_of_ne_nil hother
        rw [putAt, at?, hvalue next]
        rcases hlookup : siblings.lookup first with _ | below
        · rfl
        · rcases below with before | entries'
          · rfl
          · exact absurd (by rw [hlookup]; rfl) (hfile entries')
      · rw [List.dropLast_cons_cons, at?_cons_directory] at hdirectory
        obtain ⟨below, hbelow, hdirectory⟩ := Option.bind_eq_some_iff.1 hdirectory
        rw [hbelow] at hfile ⊢
        exact ih hdirectory hfile hother
    · rw [if_neg hfirst]

end Entry

/-- The writing of octets to a file that has been opened may break off for a cause. -/
def Device.BreaksOff (device : Device) (octets : List UInt8) (cause : SystemCause) : Prop :=
  ∃ root way count, device.breaksOff root way octets = some (count, cause)

namespace Disk

/-! ## Following a path -/

variable {d d' d'' : Disk} {way : List String}

/-- A directory stands at the end of a way. -/
def HasDirectory (d : Disk) (way : List String) : Prop :=
  ∃ entries, d.root.at? way = some (.directory entries)

/-- Components lead from one directory to an end, through directories. -/
inductive Leads (d : Disk) : List String → List Path.Chars → List String → Prop
  | here (way : List String) : Leads d way [] way
  | stay {way target : List String} {component : Path.Chars} {rest : List Path.Chars}
      (directory : d.HasDirectory way) (stays : component = [] ∨ component = ['.'])
      (further : Leads d way rest target) : Leads d way (component :: rest) target
  | up {way target : List String} {rest : List Path.Chars} (directory : d.HasDirectory way)
      (further : Leads d way.dropLast rest target) : Leads d way (['.', '.'] :: rest) target
  | down {way target : List String} {component : Path.Chars} {rest : List Path.Chars}
      (directory : d.HasDirectory way) (goes : ¬ (component = [] ∨ component = ['.']))
      (goes_down : component ≠ ['.', '.'])
      (further : Leads d (way ++ [String.ofList component]) rest target) :
      Leads d way (component :: rest) target

theorem follow_cons {entries : List (String × Entry)}
    (h : d.root.at? way = some (.directory entries)) (component : Path.Chars)
    (rest : List Path.Chars) :
    d.follow way (component :: rest) =
      if component = [] ∨ component = ['.'] then d.follow way rest
      else if component = ['.', '.'] then d.follow way.dropLast rest
      else if rest.isEmpty || (entries.lookup (String.ofList component)).isSome then
        d.follow (way ++ [String.ofList component]) rest
      else .error .notFound := by
  rw [follow, h]

theorem leads_of_follow {target : List String} {components : List Path.Chars}
    (h : d.follow way components = .ok target) : d.Leads way components target := by
  induction components generalizing way with
  | nil =>
    cases h
    exact .here _
  | cons component rest ih =>
    rcases hat : d.root.at? way with _ | content | entries
    · rw [follow, hat] at h
      cases h
    · rw [follow, hat] at h
      cases h
    · rw [follow_cons hat] at h
      split at h
      · exact .stay ⟨entries, hat⟩ ‹_› (ih h)
      · split at h
        · rename_i hup
          rw [hup]
          exact .up ⟨entries, hat⟩ (ih h)
        · split at h
          · exact .down ⟨entries, hat⟩ ‹_› ‹_› (ih h)
          · cases h

/-- A path that goes on passes through a directory. -/
theorem Leads.hasDirectory {target : List String} {components : List Path.Chars}
    (h : d.Leads way components target) (hne : components ≠ []) : d.HasDirectory way := by
  cases h with
  | here => exact absurd rfl hne
  | stay directory => exact directory
  | up directory => exact directory
  | down directory => exact directory

theorem follow_eq_ok_iff {target : List String} {components : List Path.Chars} :
    d.follow way components = .ok target ↔ d.Leads way components target := by
  refine ⟨leads_of_follow, fun h => ?_⟩
  induction h with
  | here => rfl
  | stay directory stays _ ih =>
    obtain ⟨entries, hat⟩ := directory
    rw [follow_cons hat, if_pos stays, ih]
  | up directory _ ih =>
    obtain ⟨entries, hat⟩ := directory
    rw [follow_cons hat, if_neg (by decide), if_pos rfl, ih]
  | @down way target component rest directory goes goes_down further ih =>
    obtain ⟨entries, hat⟩ := directory
    rw [follow_cons hat, if_neg goes, if_neg goes_down, if_pos, ih]
    rcases rest with _ | ⟨next, rest⟩
    · rfl
    · obtain ⟨below, hbelow⟩ := further.hasDirectory (List.cons_ne_nil _ _)
      rw [Entry.at?_append, hat, Option.bind_some] at hbelow
      obtain ⟨child, hchild, -⟩ := Option.bind_eq_some_iff.1 hbelow
      rw [Entry.child?] at hchild
      rw [hchild]
      rfl

theorem HasDirectory.dropLast (h : d.HasDirectory way) : d.HasDirectory way.dropLast := by
  rcases List.eq_nil_or_concat way with rfl | ⟨before, name, rfl⟩
  · exact h
  · rw [List.concat_eq_append, List.dropLast_concat]
    obtain ⟨entries, hat⟩ := h
    rw [List.concat_eq_append, Entry.at?_append] at hat
    obtain ⟨entry, hbefore, hat⟩ := Option.bind_eq_some_iff.1 hat
    rcases entry with content | entries'
    · cases hat
    · exact ⟨entries', hbefore⟩

/-- A path that does not lead to a directory leads to its last component. -/
theorem Leads.exists_eq_concat {target : List String} {components : List Path.Chars}
    {last : Path.Chars} (h : d.Leads way (components ++ [last]) target)
    (hfile : ¬ d.HasDirectory target) : ∃ before, target = before ++ [String.ofList last] := by
  induction components generalizing way with
  | nil =>
    cases h with
    | stay directory _ further =>
      cases further
      exact absurd directory hfile
    | up directory further =>
      cases further
      exact absurd directory.dropLast hfile
    | down _ _ _ further =>
      cases further
      exact ⟨_, rfl⟩
  | cons component components ih =>
    cases h with
    | stay _ _ further => exact ih further
    | up _ further => exact ih further
    | down _ _ _ further => exact ih further

theorem locate_eq_ok_iff {path : Path.Chars} :
    d.locate path = .ok way ↔ path ≠ [] ∧
      d.Leads (if Path.isAbsolute path then [] else d.cwd) (Text.splitOn '/' path) way := by
  rw [locate, locateComponents, ← follow_eq_ok_iff]
  rcases path with _ | ⟨c, path⟩
  · simp
  · simp

/-- Where every directory is still there, a path leads to the same end. -/
theorem Leads.mono (h : ∀ way, d.HasDirectory way → d'.HasDirectory way)
    {target : List String} {components : List Path.Chars}
    (hleads : d.Leads way components target) : d'.Leads way components target := by
  induction hleads with
  | here => exact .here _
  | stay directory stays _ ih => exact .stay (h _ directory) stays ih
  | up directory _ ih => exact .up (h _ directory) ih
  | down directory goes goes_down _ ih => exact .down (h _ directory) goes goes_down ih

theorem locate_mono (hcwd : d'.cwd = d.cwd) (h : ∀ way, d.HasDirectory way → d'.HasDirectory way)
    {path : Path.Chars} (hlocate : d.locate path = .ok way) : d'.locate path = .ok way := by
  rw [locate_eq_ok_iff] at hlocate ⊢
  rw [hcwd]
  exact ⟨hlocate.1, hlocate.2.mono h⟩

theorem find_eq_ok {path : Path.Chars} {e : Entry} (h : d.find path = .ok e) :
    path ≠ [] ∧ ∃ way, d.locate path = .ok way ∧ d.root.at? way = some e := by
  obtain ⟨way, hway, h⟩ := bind_eq_ok.1 h
  refine ⟨?_, way, hway, ?_⟩
  · rintro rfl
    cases hway
  · split at h
    · cases h
      assumption
    · cases h

theorem read_eq_ok_iff {path : Path.Chars} {content : List UInt8} :
    d.read path = .ok content ↔
      ∃ way, d.locate path = .ok way ∧ d.root.at? way = some (.file content) := by
  rw [read, refused, mapError_eq_ok, bind_eq_ok]
  constructor
  · rintro ⟨entry, hfind, hentry⟩
    obtain ⟨-, way, hlocate, hat⟩ := find_eq_ok hfind
    rcases entry with before | entries
    · cases hentry
      exact ⟨way, hlocate, hat⟩
    · cases hentry
  · rintro ⟨way, hlocate, hat⟩
    refine ⟨.file content, ?_, rfl⟩
    simp only [find, hlocate, hat, bind, Except.bind]

theorem checkPath_eq_ok {path : Path.Chars} : checkPath path = .ok () ↔ '\x00' ∉ path := by
  rw [checkPath]
  split
  · simpa
  · simpa

theorem pass_eq_ok {cause : Option SystemCause} : pass cause = .ok () ↔ cause = none := by
  rcases cause with _ | cause
  · simp [pass]
  · simp [pass]

/-- What is opened for reading is a file that the device neither withholds nor loses. -/
theorem fetch_eq_ok_iff {path : Path.Chars} {content : List UInt8} :
    d.fetch path = .ok content ↔ '\x00' ∉ path ∧
      ∃ way, d.locate path = .ok way ∧ d.root.at? way = some (.file content) ∧
        d.device.withholds way = none ∧ d.device.loses way = none := by
  simp only [fetch, bind_eq_ok, refused, mapError_eq_ok]
  constructor
  · rintro ⟨_, hpath, content', hread, way, hlocate, _, hwithholds, _, hloses, h⟩
    cases h
    obtain ⟨way', hlocate', hat⟩ := read_eq_ok_iff.1 hread
    cases hlocate.symm.trans hlocate'
    exact ⟨checkPath_eq_ok.1 hpath, way, hlocate, hat, pass_eq_ok.1 hwithholds,
      pass_eq_ok.1 hloses⟩
  · rintro ⟨hnull, way, hlocate, hat, hwithholds, hloses⟩
    exact ⟨(), checkPath_eq_ok.2 hnull, content, read_eq_ok_iff.2 ⟨way, hlocate, hat⟩, way, hlocate,
      (), pass_eq_ok.2 hwithholds, (), pass_eq_ok.2 hloses, rfl⟩

/-! ## Paths without null characters -/

theorem avoids_checkPath {path : Path.Chars} (h : '\x00' ∉ path) :
    Avoids (checkPath path) .nullInPath := by
  rw [checkPath_eq_ok.2 h]
  exact avoids_ok ()

theorem fetch_of_null {path : Path.Chars} (h : '\x00' ∈ path) :
    d.fetch path = .error .nullInPath := by
  rw [fetch, checkPath, if_pos h]
  rfl

theorem avoids_refused {α : Type} (path : Path.Chars) (result : Except SystemCause α) :
    Avoids (refused path result) .nullInPath := avoids_mapError fun _ _ => nofun

theorem avoids_fetch {path : Path.Chars} (h : '\x00' ∉ path) :
    Avoids (d.fetch path) .nullInPath := by
  refine (avoids_checkPath h).bind fun _ _ => ?_
  refine (avoids_refused path _).bind fun _ _ => ?_
  refine (avoids_refused path _).bind fun _ _ => ?_
  refine (avoids_refused path _).bind fun _ _ => ?_
  refine .bind (avoids_mapError fun _ _ => ?_) fun _ _ => avoids_ok _
  exact nofun

theorem avoids_openFile {path : Path.Chars} (h : '\x00' ∉ path) (keeps : Bool) :
    Avoids (d.openFile path keeps) .nullInPath := by
  refine (avoids_checkPath h).bind fun _ _ => ?_
  exact (avoids_refused path _).bind fun _ _ => avoids_ok _

theorem avoids_makeDirectory {path : Path.Chars} (h : '\x00' ∉ path) :
    Avoids (d.makeDirectory path) .nullInPath :=
  (avoids_checkPath h).bind fun _ _ => avoids_refused path _

theorem ofWriting_eq_null {path : String} {fault : SystemFault}
    (h : FileFault.ofWriting path fault = .nullInPath) : fault = .nullInPath := by
  cases fault with
  | nullInPath => rfl
  | refused cause named =>
    rw [FileFault.ofWriting] at h
    split at h
    · cases h
    · cases h

theorem ofReading_eq_null {path : String} {fault : SystemFault}
    (h : FileFault.ofReading path fault = .nullInPath) : fault = .nullInPath := by
  cases fault with
  | nullInPath => rfl
  | refused cause named =>
    rw [FileFault.ofReading] at h
    split at h
    · cases h
    · exact ofWriting_eq_null h

theorem avoids_readText {path : String} (h : '\x00' ∉ path.toList) :
    Avoids (d.readText path) .nullInPath := by
  refine (avoids_mapError fun fault hfault hnull => ?_).bind fun _ _ => ?_
  · rw [ofReading_eq_null hnull] at hfault
    exact avoids_fetch h hfault
  · refine .bind (avoids_mapError fun _ _ => ?_) fun _ _ => avoids_ok _
    exact nofun

/-! ## Disks that differ at one way -/

/-- Two disks on one device differ at most at one way, at which neither has a directory. -/
structure Apart (way : List String) (d d' : Disk) : Prop where
  cwd_eq : d'.cwd = d.cwd
  device_eq : d'.device = d.device
  face_eq : ∀ other, other ≠ way →
    (d'.root.at? other).map Entry.face = (d.root.at? other).map Entry.face
  no_directory : ¬ d.HasDirectory way
  no_directory' : ¬ d'.HasDirectory way

namespace Apart

theorem symm (h : Apart way d d') : Apart way d' d :=
  ⟨h.cwd_eq.symm, h.device_eq.symm, fun other hne => (h.face_eq other hne).symm, h.no_directory',
    h.no_directory⟩

theorem trans (h : Apart way d d') (h' : Apart way d' d'') : Apart way d d'' :=
  ⟨h'.cwd_eq.trans h.cwd_eq, h'.device_eq.trans h.device_eq,
    fun other hne => (h'.face_eq other hne).trans (h.face_eq other hne), h.no_directory,
    h'.no_directory'⟩

theorem hasDirectory (h : Apart way d d') {other : List String} (hother : d.HasDirectory other) :
    d'.HasDirectory other := by
  have hne : other ≠ way := fun heq => h.no_directory (heq ▸ hother)
  obtain ⟨entries, hat⟩ := hother
  have hface := h.face_eq other hne
  rw [hat] at hface
  rcases hat' : d'.root.at? other with _ | content | entries'
  · rw [hat'] at hface
    cases hface
  · rw [hat'] at hface
    cases hface
  · exact ⟨entries', hat'⟩

theorem locate (h : Apart way d d') {path : Path.Chars} {target : List String}
    (hlocate : d.locate path = .ok target) : d'.locate path = .ok target :=
  locate_mono h.cwd_eq (fun _ => h.hasDirectory) hlocate

theorem at?_eq_file (h : Apart way d d') {other : List String} {content : List UInt8}
    (hat : d.root.at? other = some (.file content)) (hne : other ≠ way) :
    d'.root.at? other = some (.file content) := by
  have hface := h.face_eq other hne
  rw [hat] at hface
  rcases hat' : d'.root.at? other with _ | after | entries
  · rw [hat'] at hface
    cases hface
  · rw [hat'] at hface
    cases hface
    rfl
  · rw [hat'] at hface
    cases hface

/-- What is read elsewhere is the same. -/
theorem fetch (h : Apart way d d') {path : Path.Chars} {content : List UInt8}
    (hfetch : d.fetch path = .ok content) (hne : d.locate path ≠ .ok way) :
    d'.fetch path = .ok content := by
  obtain ⟨hnull, target, hlocate, hat, hdevice⟩ := fetch_eq_ok_iff.1 hfetch
  have htarget : target ≠ way := fun heq => hne (heq ▸ hlocate)
  refine fetch_eq_ok_iff.2 ⟨hnull, target, h.locate hlocate, h.at?_eq_file hat htarget, ?_⟩
  rwa [h.device_eq]

end Apart

/-! ## Writing -/

/-- Where a file can be put: in a directory, and not where a directory is. -/
def Vacant (d : Disk) (way : List String) : Prop :=
  d.HasDirectory way.dropLast ∧ ¬ d.HasDirectory way

theorem apart_putFile (h : d.Vacant way) (content : List UInt8) :
    Apart way d (d.putFile way content) := by
  obtain ⟨⟨entries, hat⟩, hfile⟩ := h
  refine ⟨rfl, rfl, fun other hne => ?_, hfile, ?_⟩
  · exact Entry.face_at?_putAt (fun _ => rfl) hat (fun entries' h => hfile ⟨entries', h⟩) hne
  · rintro ⟨entries', h⟩
    rw [putFile, Entry.at?_putAt hat] at h
    cases h

theorem at?_putFile (h : d.Vacant way) (content : List UInt8) :
    (d.putFile way content).root.at? way = some (.file content) := by
  obtain ⟨⟨entries, hat⟩, -⟩ := h
  exact Entry.at?_putAt hat

theorem vacant_putFile (h : d.Vacant way) (content : List UInt8) :
    (d.putFile way content).Vacant way := by
  have hapart := apart_putFile h content
  exact ⟨hapart.hasDirectory h.1, hapart.no_directory'⟩

theorem hasDirectory_of_checkDirectory (h : d.checkDirectory way = .ok ()) :
    d.HasDirectory way := by
  rw [checkDirectory] at h
  split at h
  · exact ⟨_, ‹_›⟩
  · cases h
  · cases h

theorem place_eq_ok {path : Path.Chars} (h : d.place path = .ok way) :
    d.locate path = .ok way ∧ d.HasDirectory way.dropLast := by
  obtain ⟨way', hlocate, h⟩ := bind_eq_ok.1 h
  obtain ⟨_, hcheck, h⟩ := bind_eq_ok.1 h
  cases h
  exact ⟨hlocate, hasDirectory_of_checkDirectory hcheck⟩

theorem placeFile_eq_ok {path : Path.Chars} (h : d.placeFile path = .ok way) :
    d.locate path = .ok way ∧ d.Vacant way := by
  rw [placeFile] at h
  split at h
  · cases h
  obtain ⟨way', hplace, h⟩ := bind_eq_ok.1 h
  obtain ⟨_, hfile, h⟩ := bind_eq_ok.1 h
  obtain ⟨_, -, h⟩ := bind_eq_ok.1 h
  cases h
  obtain ⟨hlocate, hdirectory⟩ := place_eq_ok hplace
  refine ⟨hlocate, hdirectory, ?_⟩
  rintro ⟨entries, hat⟩
  rw [hat] at hfile
  cases hfile

/-- A file that is opened stands where its path leads, and is empty unless what it holds is kept. -/
theorem openFile_eq_ok {path : Path.Chars} {keeps : Bool} {opened : Disk}
    (h : d.openFile path keeps = .ok (way, opened)) :
    d.locate path = .ok way ∧ d.Vacant way ∧
      opened = d.putFile way (if keeps then d.held way else []) := by
  obtain ⟨_, -, h⟩ := bind_eq_ok.1 h
  obtain ⟨way', hplace, h⟩ := bind_eq_ok.1 h
  cases h
  obtain ⟨hlocate, hvacant⟩ := placeFile_eq_ok (mapError_eq_ok.1 hplace)
  exact ⟨hlocate, hvacant, rfl⟩

/-- A first part of some octets is added to what a file holds, and that is all of them unless
writing breaks off. -/
theorem store_cases (d : Disk) (way : List String) (octets : List UInt8) :
    ∃ kept, kept <+: octets ∧ (d.store way octets).2 = d.putFile way (d.held way ++ kept) ∧
      ((d.store way octets).1 = .ok () ∧ kept = octets ∨
        ∃ cause, d.device.BreaksOff octets cause ∧
          (d.store way octets).1 = .error (.refused cause none)) := by
  rw [store]
  rcases hbreaks : d.device.breaksOff d.root way octets with _ | ⟨count, cause⟩
  · exact ⟨octets, List.prefix_rfl, rfl, .inl ⟨rfl, rfl⟩⟩
  · exact ⟨octets.take count, List.take_prefix _ _, rfl,
      .inr ⟨cause, ⟨_, _, _, hbreaks⟩, rfl⟩⟩

/-- A file that is not opened for writing is left as it is.  One that is opened stands where its
path leads and holds a first part of the octets, and all of them if writing does not fail. -/
theorem write_cases (d : Disk) (path : Path.Chars) (octets : List UInt8) :
    (∃ fault, d.write path octets = (.error fault, d) ∧ (fault = .nullInPath → '\x00' ∈ path)) ∨
      ∃ way kept, d.locate path = .ok way ∧ kept <+: octets ∧
        Apart way d (d.write path octets).2 ∧
        (d.write path octets).2.root.at? way = some (.file kept) ∧
        ((d.write path octets).1 = .ok () ∧ kept = octets ∨
          ∃ cause, d.device.BreaksOff octets cause ∧
            (d.write path octets).1 = .error (.refused cause none)) := by
  rw [write]
  rcases hopen : d.openFile path false with fault | ⟨way, opened⟩
  · refine .inl ⟨fault, rfl, fun hfault => ?_⟩
    by_contra hnull
    rw [hfault] at hopen
    exact avoids_openFile hnull false hopen
  · obtain ⟨hlocate, hvacant, rfl⟩ := openFile_eq_ok hopen
    dsimp only
    rw [if_neg Bool.false_ne_true]
    obtain ⟨kept, hkept, hstore, hresult⟩ := store_cases (d.putFile way []) way octets
    have hheld : (d.putFile way []).held way = [] := by
      rw [held, at?_putFile hvacant]
      rfl
    have hopened := vacant_putFile hvacant []
    rw [hheld, List.nil_append] at hstore
    refine .inr ⟨way, kept, hlocate, hkept, ?_, ?_, hresult⟩
    · rw [hstore]
      exact (apart_putFile hvacant []).trans (apart_putFile hopened kept)
    · rw [hstore]
      exact at?_putFile hopened kept

/-- Octets are added to a file, or the disk stays as it is. -/
theorem append_cases (d : Disk) (path : Path.Chars) (octets : List UInt8) :
    d.append path octets = d ∨
      ∃ way content, d.locate path = .ok way ∧ Apart way d (d.append path octets) ∧
        (d.append path octets).root.at? way = some (.file content) := by
  rw [append]
  rcases hplace : d.place path with cause | way
  · exact .inl rfl
  · obtain ⟨hlocate, hdirectory⟩ := place_eq_ok hplace
    dsimp only
    split
    · rename_i before hat
      have hvacant : d.Vacant way := by
        refine ⟨hdirectory, ?_⟩
        rintro ⟨entries, h⟩
        rw [hat] at h
        cases h
      obtain ⟨kept, -, hstore, -⟩ := store_cases d way octets
      rw [hstore]
      exact .inr ⟨way, _, hlocate, apart_putFile hvacant _, at?_putFile hvacant _⟩
    · exact .inl rfl

end Disk

end Courier
