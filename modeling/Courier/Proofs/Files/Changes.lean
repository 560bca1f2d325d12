import Courier.Proofs.Files.Above
import Courier.Proofs.Files.Disk
import Mathlib.Data.Set.Insert
import Mathlib.Tactic.Common

/-!
# What may change on a disk

`Disk.Changes` bounds what has happened to a disk: the only files with other content stand where one
of some paths leads, the only directories that are new stand where one of some other paths leads,
and nothing is gone.  Each operation has its bound, and the bounds of one operation after another
are put together by `Changes.trans`.  A file of another name is read as before (`Changes.fetch`).
`Disk.Writes` says what may come of writing a text, and what has changed in each case.
-/

namespace Courier

open Outcome (bind_eq_ok mapError_eq_ok)

namespace Disk

variable {d d' d'' : Disk} {way : List String} {files files' made made' : Set Path.Chars}

/-- The content of the file at the end of a way. -/
def contentAt (d : Disk) (way : List String) : Option (List UInt8) :=
  (d.root.at? way).bind Entry.face

theorem contentAt_eq_some {content : List UInt8} :
    d.contentAt way = some content ↔ d.root.at? way = some (.file content) := by
  rw [contentAt]
  rcases d.root.at? way with _ | before | entries
  · simp
  · simp [Entry.face]
  · simp [Entry.face]

/-- A path that leads to a file leads to its own base name. -/
theorem exists_way_to_baseName {path : Path.Chars} (hlocate : d.locate path = .ok way)
    (hfile : (d.contentAt way).isSome) :
    ∃ outer, way = outer ++ [String.ofList (Path.baseName path)] := by
  obtain ⟨before, hsplit⟩ := Path.exists_splitOn_eq_baseName path
  obtain ⟨-, hleads⟩ := locate_eq_ok_iff.1 hlocate
  rw [hsplit] at hleads
  refine hleads.exists_eq_concat ?_
  rintro ⟨entries, hat⟩
  rw [contentAt, hat] at hfile
  cases hfile

/-- What has changed from a disk to a later one. -/
structure Changes (files made : Set Path.Chars) (d d' : Disk) : Prop where
  cwd_eq : d'.cwd = d.cwd
  device_eq : d'.device = d.device
  /-- A file has the content it had, unless one of the paths in `files` leads to it. -/
  contentAt_eq : ∀ way, (∀ path ∈ files, d'.locate path ≠ .ok way) →
    d'.contentAt way = d.contentAt way
  /-- No file is gone. -/
  isSome_contentAt : ∀ way, (d.contentAt way).isSome → (d'.contentAt way).isSome
  /-- No directory is gone. -/
  hasDirectory : ∀ way, d.HasDirectory way → d'.HasDirectory way
  /-- A directory is new only where one of the paths in `made` leads. -/
  isNew : ∀ way, d'.HasDirectory way →
    d.HasDirectory way ∨ ∃ path ∈ made, d'.locate path = .ok way

namespace Changes

theorem refl (d : Disk) : Changes files made d d where
  cwd_eq := rfl
  device_eq := rfl
  contentAt_eq _ _ := rfl
  isSome_contentAt _ h := h
  hasDirectory _ h := h
  isNew _ h := .inl h

theorem cwdPath_eq (h : Changes files made d d') : d'.cwdPath = d.cwdPath := by
  rw [cwdPath, h.cwd_eq, cwdPath]

/-- A path leads where it led. -/
theorem locate (h : Changes files made d d') {path : Path.Chars} (hlocate : d.locate path = .ok way) :
    d'.locate path = .ok way := locate_mono h.cwd_eq h.hasDirectory hlocate

theorem trans (h : Changes files made d d') (h' : Changes files made d' d'') :
    Changes files made d d'' where
  cwd_eq := h'.cwd_eq.trans h.cwd_eq
  device_eq := h'.device_eq.trans h.device_eq
  contentAt_eq way hway := by
    rw [h'.contentAt_eq way hway]
    exact h.contentAt_eq way fun path hpath hlocate => hway path hpath (h'.locate hlocate)
  isSome_contentAt way hway := h'.isSome_contentAt way (h.isSome_contentAt way hway)
  hasDirectory way hway := h'.hasDirectory way (h.hasDirectory way hway)
  isNew way hway := by
    rcases h'.isNew way hway with hway | hnew
    · rcases h.isNew way hway with hway | ⟨path, hpath, hlocate⟩
      · exact .inl hway
      · exact .inr ⟨path, hpath, h'.locate hlocate⟩
    · exact .inr hnew

theorem mono (h : Changes files made d d') (hfiles : files ⊆ files') (hmade : made ⊆ made') :
    Changes files' made' d d' where
  cwd_eq := h.cwd_eq
  device_eq := h.device_eq
  contentAt_eq way hway := h.contentAt_eq way fun path hpath => hway path (hfiles hpath)
  isSome_contentAt := h.isSome_contentAt
  hasDirectory := h.hasDirectory
  isNew way hway := (h.isNew way hway).imp_right fun ⟨path, hpath, hlocate⟩ =>
    ⟨path, hmade hpath, hlocate⟩

/-- A file that is called otherwise than all those that may have changed is as before. -/
theorem at?_eq_file (h : Changes files made d d') {path : Path.Chars} {content : List UInt8}
    (hlocate : d.locate path = .ok way) (hat : d.root.at? way = some (.file content))
    (hne : ∀ file ∈ files, Path.baseName file ≠ Path.baseName path) :
    d'.root.at? way = some (.file content) := by
  have hbefore : d.contentAt way = some content := contentAt_eq_some.2 hat
  have hfile : (d'.contentAt way).isSome := h.isSome_contentAt way (by rw [hbefore]; rfl)
  have hother : ∀ file ∈ files, d'.locate file ≠ .ok way := by
    intro file hfile' hlocate'
    obtain ⟨outer, hway⟩ := exists_way_to_baseName (h.locate hlocate) hfile
    obtain ⟨outer', hway'⟩ := exists_way_to_baseName hlocate' hfile
    have hlast := (List.append_inj' (hway'.symm.trans hway) rfl).2
    exact hne file hfile' (String.ofList_injective (List.singleton_inj.1 hlast))
  refine contentAt_eq_some.1 ?_
  rw [h.contentAt_eq way hother, hbefore]

/-- A file that is called otherwise than all those that may have changed holds what it held. -/
theorem read (h : Changes files made d d') {path : Path.Chars} {content : List UInt8}
    (hread : d.read path = .ok content)
    (hne : ∀ file ∈ files, Path.baseName file ≠ Path.baseName path) :
    d'.read path = .ok content := by
  obtain ⟨way, hlocate, hat⟩ := read_eq_ok_iff.1 hread
  exact read_eq_ok_iff.2 ⟨way, h.locate hlocate, h.at?_eq_file hlocate hat hne⟩

theorem fetch (h : Changes files made d d') {path : Path.Chars} {content : List UInt8}
    (hfetch : d.fetch path = .ok content)
    (hne : ∀ file ∈ files, Path.baseName file ≠ Path.baseName path) :
    d'.fetch path = .ok content := by
  obtain ⟨hnull, way, hlocate, hat, hdevice⟩ := fetch_eq_ok_iff.1 hfetch
  rw [← h.device_eq] at hdevice
  exact fetch_eq_ok_iff.2
    ⟨hnull, way, h.locate hlocate, h.at?_eq_file hlocate hat hne, hdevice⟩

theorem readText (h : Changes files made d d') {path : String} {text : List Char}
    (hread : d.readText path = .ok text)
    (hne : ∀ file ∈ files, Path.baseName file ≠ Path.baseName path.toList) :
    d'.readText path = .ok text := by
  obtain ⟨content, hcontent, hdecode⟩ := bind_eq_ok.1 hread
  rw [Disk.readText, mapError_eq_ok.2 (h.fetch (mapError_eq_ok.1 hcontent) hne)]
  exact hdecode

end Changes

/-! ## The bound of each operation -/

theorem contentAt_eq_of_face_eq
    (h : (d'.root.at? way).map Entry.face = (d.root.at? way).map Entry.face) :
    d'.contentAt way = d.contentAt way := by
  have hjoin (e : Disk) : e.contentAt way = ((e.root.at? way).map Entry.face).join := by
    rw [contentAt]
    rcases e.root.at? way with _ | entry
    · rfl
    · rfl
  rw [hjoin, hjoin, h]

theorem hasDirectory_of_face_eq
    (h : (d'.root.at? way).map Entry.face = (d.root.at? way).map Entry.face)
    (hway : d.HasDirectory way) : d'.HasDirectory way := by
  obtain ⟨entries, hat⟩ := hway
  rw [hat] at h
  obtain ⟨entry, hat', hface⟩ := Option.map_eq_some_iff.1 h
  cases entry with
  | file content => cases hface
  | directory entries' => exact ⟨entries', hat'⟩

/-- Where a file stands that differs, there alone is something changed. -/
theorem changes_of_apart {path : Path.Chars} {content : List UInt8} (hlocate : d.locate path = .ok way)
    (hapart : Apart way d d') (hat : d'.root.at? way = some (.file content)) :
    Changes {path} ∅ d d' := by
  have hwritten : (d'.contentAt way).isSome := by
    rw [contentAt_eq_some.2 hat]
    rfl
  refine ⟨hapart.cwd_eq, hapart.device_eq, fun other hother => ?_, fun other hother => ?_,
    fun _ => hapart.hasDirectory, fun _ hother => .inl (hapart.symm.hasDirectory hother)⟩
  · refine contentAt_eq_of_face_eq (hapart.face_eq other ?_)
    rintro rfl
    exact hother path rfl (hapart.locate hlocate)
  · by_cases hne : other = way
    · rwa [hne]
    · rwa [contentAt_eq_of_face_eq (hapart.face_eq other hne)]

/-- Adding to a file changes the file of the path. -/
theorem changes_append (d : Disk) (path : Path.Chars) (octets : List UInt8) :
    Changes {path} ∅ d (d.append path octets) := by
  rcases append_cases d path octets with hsame | ⟨way, content, hlocate, hapart, hat⟩
  · rw [hsame]
    exact .refl d
  · exact changes_of_apart hlocate hapart hat

/-- Making a directory puts an empty one where the path leads, where there was nothing, and changes
nothing else. -/
theorem makeDirectory_eq_ok {path : Path.Chars} (h : d.makeDirectory path = .ok d') :
    ∃ way, d.locate path = .ok way ∧ d'.cwd = d.cwd ∧ d'.device = d.device ∧
      d.root.at? way = none ∧ d'.root.at? way = some (.directory []) ∧
      ∀ other, other ≠ way →
        (d'.root.at? other).map Entry.face = (d.root.at? other).map Entry.face := by
  obtain ⟨_, -, h⟩ := bind_eq_ok.1 h
  rw [refused, mapError_eq_ok] at h
  obtain ⟨way, hplace, h⟩ := bind_eq_ok.1 h
  obtain ⟨_, hmissing, h⟩ := bind_eq_ok.1 h
  obtain ⟨_, -, h⟩ := bind_eq_ok.1 h
  cases h
  obtain ⟨hlocate, entries, hat⟩ := place_eq_ok hplace
  have hnothing : d.root.at? way = none := by
    rcases hentry : d.root.at? way with _ | entry
    · rfl
    · rw [hentry] at hmissing
      cases hmissing
  refine ⟨way, hlocate, rfl, rfl, hnothing, Entry.at?_putAt hat, fun other hne => ?_⟩
  exact Entry.face_at?_putAt (fun _ => rfl) hat (by simp [hnothing]) hne

/-- Making a directory makes that of the path, where there was nothing. -/
theorem changes_makeDirectory {path : Path.Chars} (h : d.makeDirectory path = .ok d') :
    Changes ∅ {path} d d' := by
  obtain ⟨way, hlocate, hcwd, hdevice, hnothing, hmade, hface⟩ := makeDirectory_eq_ok h
  have hcontent : ∀ other, d'.contentAt other = d.contentAt other := by
    intro other
    by_cases hne : other = way
    · rw [hne, contentAt, contentAt, hnothing, hmade]
      rfl
    · exact contentAt_eq_of_face_eq (hface other hne)
  have hkept : ∀ other, d.HasDirectory other → d'.HasDirectory other := by
    intro other hother
    refine hasDirectory_of_face_eq (hface other ?_) hother
    rintro rfl
    obtain ⟨entries, hat⟩ := hother
    cases hnothing.symm.trans hat
  refine ⟨hcwd, hdevice, fun other _ => hcontent other, fun other hother => ?_, hkept,
    fun other hother => ?_⟩
  · rwa [hcontent]
  · by_cases hne : other = way
    · exact .inr ⟨path, rfl, hne ▸ locate_mono hcwd hkept hlocate⟩
    · exact .inl (hasDirectory_of_face_eq (hface other hne).symm hother)

/-- Making directories one below the other makes those that are missing, as far as it comes. -/
theorem changes_makeDirectoriesFrom (d : Disk) (outer : Path.Chars) (components : List Path.Chars) :
    Changes ∅ {path | path ∈ Path.stages outer components} d
      (d.makeDirectoriesFrom outer components).2 := by
  induction components generalizing d outer with
  | nil => exact .refl d
  | cons component rest ih =>
    have hrest : ∀ e : Disk, Changes ∅ {path | path ∈ Path.stages outer (component :: rest)} e
        (e.makeDirectoriesFrom (outer ++ '/' :: component) rest).2 := fun e =>
      (ih e _).mono subset_rfl fun path hpath => List.mem_cons_of_mem _ hpath
    rw [makeDirectoriesFrom]
    split
    · exact hrest d
    · split
      · exact hrest d
      · split
        · exact .refl d
        · rename_i made hmade
          refine ((changes_makeDirectory hmade).mono subset_rfl ?_).trans (hrest made)
          exact Set.singleton_subset_iff.2 List.mem_cons_self

/-! ## Null characters -/

/-- A path, or one above it, has a null character. -/
def HasNull (d : Disk) (path : String) : Prop :=
  '\x00' ∈ path.toList ∨ ∃ outer ∈ Path.above d.cwdPath path.toList, '\x00' ∈ outer

theorem null_of_makeDirectoriesFrom {outer : Path.Chars} {components : List Path.Chars}
    (h : (d.makeDirectoriesFrom outer components).1 = .error .nullInPath) :
    ∃ path ∈ Path.stages outer components, '\x00' ∈ path := by
  induction components generalizing d outer with
  | nil => cases h
  | cons component rest ih =>
    have hrest : ∀ e : Disk,
        (e.makeDirectoriesFrom (outer ++ '/' :: component) rest).1 = .error .nullInPath →
        ∃ path ∈ Path.stages outer (component :: rest), '\x00' ∈ path := fun e he => by
      obtain ⟨path, hpath, hnull⟩ := ih he
      exact ⟨path, List.mem_cons_of_mem _ hpath, hnull⟩
    rw [makeDirectoriesFrom] at h
    split at h
    · exact hrest d h
    · split at h
      · exact hrest d h
      · split at h
        · rename_i fault hmake
          refine ⟨_, List.mem_cons_self, ?_⟩
          by_contra hnull
          rw [Except.error.inj h] at hmake
          exact avoids_makeDirectory hnull hmake
        · exact hrest _ h

/-! ## What may come of writing a text -/

/-- What may come of writing a text at a path. -/
inductive Writes (path : String) (text : List Char) (d : Disk) :
    Except FileFault Unit → Disk → Prop
  /-- The file of the path has changed and holds the text. -/
  | written {d' : Disk} (changes : Changes {path.toList} (Path.above d.cwdPath path.toList) d d')
      (read : d'.read path.toList = .ok (Text.Utf8.encode text)) : Writes path text d (.ok ()) d'
  /-- The file has been opened, but the device has broken off the writing: it holds a first part of
  the text. -/
  | brokenOff {cause : SystemCause} {d' : Disk} {kept : List UInt8}
      (breaksOff : d.device.BreaksOff (Text.Utf8.encode text) cause)
      (changes : Changes {path.toList} (Path.above d.cwdPath path.toList) d d')
      (isPrefix : kept <+: Text.Utf8.encode text) (read : d'.read path.toList = .ok kept) :
      Writes path text d (.error (.ofWriting path (.refused cause none))) d'
  /-- The file has not been opened, and no file has changed. -/
  | unopened {cause : SystemCause} {named : Option String} {d' : Disk}
      (changes : Changes ∅ (Path.above d.cwdPath path.toList) d d') :
      Writes path text d (.error (.ofWriting path (.refused cause named))) d'
  /-- There is no such path. -/
  | null {d' : Disk} (hasNull : d.HasNull path)
      (changes : Changes ∅ (Path.above d.cwdPath path.toList) d d') :
      Writes path text d (.error .nullInPath) d'

/-- Whatever comes of writing a text, its own file alone may have changed. -/
theorem Writes.changes {path : String} {text : List Char} {result : Except FileFault Unit}
    (h : Writes path text d result d') :
    Changes {path.toList} (Path.above d.cwdPath path.toList) d d' := by
  cases h with
  | written changes => exact changes
  | brokenOff _ changes => exact changes
  | unopened changes => exact changes.mono (Set.empty_subset _) subset_rfl
  | null _ changes => exact changes.mono (Set.empty_subset _) subset_rfl

/-- A text can be written at a path, whatever text it is. -/
def Accepts (d : Disk) (path : String) : Prop := ∀ text, (writeText path text d).1 = .ok ()

section

variable {path : String} {text : List Char} {result : Except FileFault Unit}

theorem Writes.of_unopened {fault : SystemFault}
    (hnull : fault = .nullInPath → d.HasNull path)
    (changes : Changes ∅ (Path.above d.cwdPath path.toList) d d') :
    Writes path text d (.error (.ofWriting path fault)) d' := by
  cases fault with
  | refused cause named => exact .unopened changes
  | nullInPath => exact .null (hnull rfl) changes

theorem writes_of_writeText (h : writeText path text d = (result, d')) :
    Writes path text d result d' := by
  rw [writeText, makeParents] at h
  rcases hmake : d.makeDirectories (Path.directory (Path.absolute d.cwdPath path.toList)) with
    ⟨outcome, made⟩
  rw [hmake] at h
  rw [makeDirectories] at hmake
  have hparents := changes_makeDirectoriesFrom d []
    (Path.components (Path.directory (Path.absolute d.cwdPath path.toList)))
  rw [hmake] at hparents
  rcases outcome with fault | _
  · cases h
    refine .of_unopened (fun hnull => .inr ?_) hparents
    rw [hnull] at hmake
    exact null_of_makeDirectoriesFrom (by rw [hmake])
  · dsimp only at h
    rcases write_cases made path.toList (Text.Utf8.encode text) with
      ⟨fault, hfault, hnull⟩ | ⟨way, kept, hlocate, hkept, hapart, hat, hend⟩
    · rw [hfault] at h
      cases h
      exact .of_unopened (fun heq => .inl (hnull heq)) hparents
    · have hchanges : Changes {path.toList} (Path.above d.cwdPath path.toList) d
          (made.write path.toList (Text.Utf8.encode text)).2 :=
        (hparents.mono (Set.empty_subset _) subset_rfl).trans
          ((changes_of_apart hlocate hapart hat).mono subset_rfl (Set.empty_subset _))
      obtain ⟨rfl, rfl⟩ := Prod.mk.inj h
      have hread : (made.write path.toList (Text.Utf8.encode text)).2.read path.toList = .ok kept :=
        read_eq_ok_iff.2 ⟨way, hapart.locate hlocate, hat⟩
      rcases hend with ⟨hok, rfl⟩ | ⟨cause, hbreaks, hcause⟩
      · rw [hok]
        exact .written hchanges hread
      · rw [hparents.device_eq] at hbreaks
        rw [hcause]
        exact .brokenOff hbreaks hchanges hkept hread

end

end Disk

end Courier
