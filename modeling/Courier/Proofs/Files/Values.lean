import Courier.Proofs.Collection.Legible
import Courier.Proofs.Files.Changes
import Courier.Proofs.Text.Utf8
import Mathlib.Tactic.Common

/-!
# Values in files

A file holds a value when its text is that of the value and the value is what the text reads as
(`Disk.HoldsJson`).  The first alone would not do: it is the second that fails of a text which says
less than the value.  Both hold of what is written after validation (`HoldsJson.of_legible` with the
lemmas on what can be read).
-/

namespace Courier

/-- The text of a value in a file. -/
def Json.fileText (value : Json) : List Char := (print fileLayout value).toList

namespace Disk

variable {d d' : Disk} {path : String} {value : Json}

/-- The value that is read from a file. -/
def json? (d : Disk) (path : String) : Option Json :=
  (d.read path.toList).toOption.bind fun octets =>
    (Text.Utf8.decode octets).toOption.bind fun text => (Json.read text).toOption

/-- A file holds a value. -/
structure HoldsJson (d : Disk) (path : String) (value : Json) : Prop where
  /-- The octets are those of the text of the value. -/
  read_eq : d.read path.toList = .ok (Text.Utf8.encode value.fileText)
  /-- The value is read back. -/
  json?_eq : d.json? path = some value

theorem json?_of_read {text : List Char} (h : d.read path.toList = .ok (Text.Utf8.encode text)) :
    d.json? path = (Json.read text).toOption := by
  rw [json?, h]
  change (Text.Utf8.decode (Text.Utf8.encode text)).toOption.bind _ = _
  rw [Text.Utf8.decode_encode]
  rfl

namespace HoldsJson

/-- A legible value is held where its text is. -/
theorem of_legible (hvalue : value.Legible)
    (hread : d.read path.toList = .ok (Text.Utf8.encode value.fileText)) :
    d.HoldsJson path value := by
  refine ⟨hread, ?_⟩
  rw [json?_of_read hread, Json.fileText, Json.read_print _ hvalue]
  rfl

/-- A file holds one value at most. -/
theorem unique {other : Json} (h : d.HoldsJson path value) (h' : d.HoldsJson path other) :
    value = other :=
  Option.some.inj (h.json?_eq.symm.trans h'.json?_eq)

/-- A file that may not have changed holds what it held. -/
theorem of_changes {files made : Set Path.Chars} (h : d.HoldsJson path value)
    (hchanges : Changes files made d d')
    (hne : ∀ file ∈ files, Path.baseName file ≠ Path.baseName path.toList) :
    d'.HoldsJson path value := by
  have hread := hchanges.read h.read_eq hne
  refine ⟨hread, ?_⟩
  rw [json?, hread, ← h.read_eq]
  exact h.json?_eq

end HoldsJson

end Disk

end Courier
