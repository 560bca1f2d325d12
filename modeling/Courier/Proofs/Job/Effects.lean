import Courier.Proofs.Job.Environments
import Mathlib.Tactic.Common

/-!
# What a conversion changes

A conversion reads and reports first, then writes its collection, and a directory may have its
environments written after that.  Before the collection is written nothing is touched
(`Quiet.confines_bind`), and what comes after it fails only where no file can have a path
(`confines_writeJson_bind`).  `conversions_confined` puts this together: a conversion that returns
has changed the files that it names and those of environments whose writing broke off, and one that
is refused has changed none.  Nothing is broken off on a device that never fails so
(`Followed.spoilt_eq_nil`).
-/

namespace Courier.Job

open Disk (Changes)
open Script (Strategy)

variable {α β : Type} {s : Surroundings} {p : Progress}

/-- The directory in which the environments of a collection are written. -/
def besideOutput (d : Disk) (output : String) : String :=
  String.ofList (Path.directory (Path.absolute d.cwdPath output.toList))

/-- An environment has been left unfinished at a path beside a collection: the device of the disk
broke off its writing. -/
def SpoiltAt (s : Surroundings) (output : String) (d : Disk) (path : String) : Prop :=
  ∃ document e e', path = environmentTarget (besideOutput d output) document.1 ∧
    e.device = d.device ∧ Spoilt s (besideOutput d output) document e e'

/-- What follows the writing of a collection from one disk to a later one: besides the log file only
the files of `others` have changed and those that are left unfinished at `spoilt`. -/
structure Followed (s : Surroundings) (output : String) (others spoilt : List String) (d d' : Disk) :
    Prop where
  isSpoilt : ∀ path ∈ spoilt, SpoiltAt s output d path
  changes : Changes (s.logged ∪ filesOf (others ++ spoilt)) (Path.above d.cwdPath output.toList) d d'

/-- Nothing is left unfinished on a device that never breaks off. -/
theorem Followed.spoilt_eq_nil {output : String} {others spoilt : List String} {d d' : Disk}
    (h : Followed s output others spoilt d d')
    (hsteady : ∀ octets cause, ¬ d.device.BreaksOff octets cause) : spoilt = [] := by
  refine List.eq_nil_iff_forall_not_mem.2 fun path hpath => ?_
  obtain ⟨document, e, e', -, hdevice, -, value, cause, -, -, hbreaks, -⟩ := h.isSpoilt path hpath
  rw [hdevice] at hbreaks
  exact hsteady _ cause hbreaks

variable {outputs : Set String} {environments : Bool}

/-- What is said of paths beside a collection depends on the working directory and the device. -/
theorem SpoiltAt.of_changes {output path : String} {d d' : Disk} {files made : Set Path.Chars}
    (h : SpoiltAt s output d' path) (hd : Changes files made d d') : SpoiltAt s output d path := by
  rw [SpoiltAt, besideOutput, hd.cwdPath_eq, hd.device_eq] at h
  exact h

theorem Followed.of_changes {output : String} {others all spoilt : List String} {d d' d'' : Disk}
    (h : Followed s output others spoilt d' d'') (hothers : others ⊆ all)
    (hd : Changes (s.logged ∪ filesOf all) (Path.above d.cwdPath output.toList) d d') :
    Followed s output all spoilt d d'' := by
  have hchanges := h.changes
  rw [hd.cwdPath_eq] at hchanges
  refine ⟨fun path hpath => (h.isSpoilt path hpath).of_changes hd, (hd.mono ?_ subset_rfl).trans
    (hchanges.mono ?_ subset_rfl)⟩
  · exact Set.union_subset_union_right _ (filesOf_mono (List.subset_append_left _ _))
  · refine Set.union_subset_union_right _ (filesOf_mono ?_)
    exact List.append_subset.2 ⟨fun path hpath => List.mem_append_left _ (hothers hpath),
      List.subset_append_right _ _⟩

end Courier.Job
