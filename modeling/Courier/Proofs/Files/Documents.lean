import Courier.Collection.Layout
import Courier.Proofs.Files.Discovery
import Mathlib.Tactic.Common

/-!
# What documents hold

Two disks hold the same documents when the same texts are read from them, whatever else they hold
(`SameDocuments`).  The labels of folders are then the same (`folderLabel?_eq`).  Adding to a file that
is not called like a document keeps the documents (`sameDocuments_append`).
-/

namespace Courier

open Discovery (hasExtension)
open Outcome (bind_eq_ok mapError_eq_ok)
open Path (IsName pathTo under)

namespace Disk

variable {d d' d'' : Disk}

/-! ## The same documents -/

/-- The path of a document, which may stand anywhere. -/
def IsDocument (path : String) : Prop :=
  ∃ parent name, IsName name ∧ hasExtension name = true ∧ path = under parent name

theorem isDocument_folderDocument (path : String) : IsDocument (folderDocument path) :=
  ⟨path, Discovery.folderDocument, by decide, by decide, rfl⟩

theorem isDocument_pathTo (directory : String) {way : List String} (h : Discovery.IsWay way) :
    IsDocument (pathTo directory way) := by
  obtain ⟨folders, name, rfl, hdocument⟩ := h.document
  rw [Discovery.isDocument, Bool.and_eq_true, Bool.and_eq_true] at hdocument
  refine ⟨pathTo directory folders, name, h.names name (by simp), hdocument.1.1, ?_⟩
  rw [Path.pathTo_append]
  rfl

/-- The same documents are read from two disks. -/
structure SameDocuments (d d' : Disk) : Prop where
  cwd_eq : d'.cwd = d.cwd
  fetch_iff : ∀ {path : String} {content : List UInt8}, IsDocument path →
    (d'.fetch path.toList = .ok content ↔ d.fetch path.toList = .ok content)

theorem SameDocuments.refl (d : Disk) : SameDocuments d d := ⟨rfl, fun _ => .rfl⟩

theorem SameDocuments.trans (h : SameDocuments d d') (h' : SameDocuments d' d'') :
    SameDocuments d d'' :=
  ⟨h'.cwd_eq.trans h.cwd_eq, fun hpath => (h'.fetch_iff hpath).trans (h.fetch_iff hpath)⟩

/-- The request in a document, if there is one that can be read. -/
def request? (d : Disk) (path : String) : Option Request :=
  (d.readText path).toOption.bind fun text => (Request.ofText text).toOption

theorem toOption_readText (d : Disk) (path : String) :
    (d.readText path).toOption = (d.fetch path.toList).toOption.bind fun content =>
      (Text.Utf8.decode content).toOption.map unifyLineEnds := by
  simp only [readText, bind, Except.bind]
  rcases d.fetch path.toList with fault | content
  · rfl
  · simp only [Except.mapError, Except.toOption, Option.bind_some]
    rcases Text.Utf8.decode content with fault | text
    · rfl
    · rfl

theorem isFile_of_readText {path : String} {text : List Char} (h : d.readText path = .ok text) :
    d.isFile path.toList = true := by
  obtain ⟨content, hcontent, -⟩ := bind_eq_ok.1 h
  obtain ⟨-, way, hlocate, hat, -⟩ := fetch_eq_ok_iff.1 (mapError_eq_ok.1 hcontent)
  simp only [isFile, find, hlocate, hat, bind, Except.bind]

/-- A folder is shown under the name in its document, if that can be read. -/
theorem folderLabel?_eq_bind (d : Disk) (path : String) :
    d.folderLabel? path = (d.readText (folderDocument path)).toOption.bind fun text =>
      (Request.readFolder text).name.filter (· ≠ "") := by
  unfold folderLabel?
  unfold folderInfo?
  rcases hread : d.readText (folderDocument path) with fault | text
  · by_cases hfile : d.isFile (folderDocument path).toList = true
    · rw [if_pos hfile]
      rfl
    · rw [if_neg hfile]
      rfl
  · rw [if_pos (isFile_of_readText hread)]
    rfl

namespace SameDocuments

variable {path : String}

theorem toOption_fetch_eq (h : SameDocuments d d') (hpath : IsDocument path) :
    (d'.fetch path.toList).toOption = (d.fetch path.toList).toOption := by
  rcases hfetch : d.fetch path.toList with fault | content
  · rcases hfetch' : d'.fetch path.toList with fault' | content'
    · rfl
    · rw [(h.fetch_iff hpath).1 hfetch'] at hfetch
      cases hfetch
  · rw [(h.fetch_iff hpath).2 hfetch]

theorem toOption_readText_eq (h : SameDocuments d d') (hpath : IsDocument path) :
    (d'.readText path).toOption = (d.readText path).toOption := by
  rw [toOption_readText, toOption_readText, h.toOption_fetch_eq hpath]

/-- The label of a folder comes from the document in it. -/
theorem folderLabel?_eq (h : SameDocuments d d') (path : String) :
    d'.folderLabel? path = d.folderLabel? path := by
  rw [folderLabel?_eq_bind, folderLabel?_eq_bind,
    h.toOption_readText_eq (isDocument_folderDocument path)]

/-- Paths are arranged in the same tree. -/
theorem fileTree_eq (h : SameDocuments d d') (root : String) (paths : List String) :
    d'.fileTree root paths = d.fileTree root paths := by
  rw [fileTree, fileTree, funext h.folderLabel?_eq, locateAll, locateAll, cwdPath, cwdPath,
    h.cwd_eq]

end SameDocuments

/-! ## Adding to another file -/

/-- A file that does not have the extension of documents is no document. -/
theorem sameDocuments_append {path : Path.Chars}
    (hpath : hasExtension (String.ofList path) = false) (octets : List UInt8) (d : Disk) :
    SameDocuments d (d.append path octets) := by
  rcases append_cases d path octets with hsame | ⟨way, content, hlocate, hapart, -⟩
  · rw [hsame]
    exact .refl d
  -- The way to the file ends in the last component of its path.
  obtain ⟨components, last, hsplit, hlast⟩ := Text.exists_splitOn_eq_concat '/' path
  have hleads := (locate_eq_ok_iff.1 hlocate).2
  rw [hsplit] at hleads
  obtain ⟨outer, rfl⟩ := hleads.exists_eq_concat hapart.no_directory
  have hother {e : Disk} {path' : String} {content : List UInt8} (hpath' : IsDocument path')
      (hfetch : e.fetch path'.toList = .ok content) :
      e.locate path'.toList ≠ .ok (outer ++ [String.ofList last]) := by
    obtain ⟨parent, name, hname, hext, rfl⟩ := hpath'
    intro heq
    obtain ⟨-, target, htarget, hat, -⟩ := fetch_eq_ok_iff.1 hfetch
    obtain ⟨components', hsplit'⟩ := Path.exists_splitOn_join parent.toList hname
    have hleads' := (locate_eq_ok_iff.1 htarget).2
    rw [Path.toList_under, hsplit'] at hleads'
    have hfile : ¬ e.HasDirectory target := by
      rintro ⟨entries, h⟩
      rw [hat] at h
      cases h
    obtain ⟨outer', rfl⟩ := hleads'.exists_eq_concat hfile
    rw [htarget] at heq
    have hname' : name = String.ofList last := by
      simpa using (List.append_inj' (Except.ok.inj heq) rfl).2
    rw [hasExtension, List.isSuffixOf_iff_suffix, hname', String.toList_ofList] at hext
    rw [hasExtension, Bool.eq_false_iff, ne_eq, List.isSuffixOf_iff_suffix,
      String.toList_ofList] at hpath
    exact hpath (hext.trans hlast)
  exact ⟨hapart.cwd_eq, fun hpath' =>
    ⟨fun hfetch => hapart.symm.fetch hfetch (hother hpath' hfetch),
      fun hfetch => hapart.fetch hfetch (hother hpath' hfetch)⟩⟩

end Disk

end Courier
