import Courier.Proofs.Text.Utf8
import Courier.Script.Tree
import Mathlib.Tactic.Common

/-!
# Edits of a script

An edit puts a text in place of a span of a script.  `splice` applies edits that stand one after the
other, which is what `Fits` says; all octets between them are copied.

`Rewritten source start stop edits text` says that a text is the script between two positions with
some edits applied, and `Applies` says the same of edits in any order.  Rewritten texts of
neighbouring regions are put together by `Applies.append`, so that a rendering can be followed piece
by piece.
-/

namespace Courier.Script

open Text.Utf8 (encode)

/-- The octets between two positions. -/
def Source.octets (source : Source) (start stop : Nat) : List UInt8 :=
  (source.drop start).take (stop - start)

/-- A text that is to stand in place of a span. -/
structure Edit where
  span : Span
  text : List Char
  deriving DecidableEq, Repr

/-- The edits stand one after the other between two positions.  No two of them overlap. -/
def Fits (start stop : Nat) : List Edit → Prop
  | [] => start ≤ stop
  | e :: edits => start ≤ e.span.start ∧ e.span.start ≤ e.span.stop ∧ Fits e.span.stop stop edits

/-- The octets between two positions with the edits applied. -/
def splice (source : Source) (start stop : Nat) : List Edit → List UInt8
  | [] => source.octets start stop
  | e :: edits =>
    source.octets start e.span.start ++ encode e.text ++ splice source e.span.stop stop edits

variable {source : Source} {start mid stop : Nat} {edits more : List Edit}

theorem octets_append (hmid : start ≤ mid) (hstop : mid ≤ stop) :
    source.octets start mid ++ source.octets mid stop = source.octets start stop := by
  have hdrop : source.drop mid = (source.drop start).drop (mid - start) := by
    rw [List.drop_drop]
    congr 1
    omega
  have hlength : stop - start = (mid - start) + (stop - mid) := by omega
  rw [Source.octets, Source.octets, Source.octets, hdrop, hlength, List.take_add]

theorem octets_self (source : Source) (start : Nat) : source.octets start start = [] := by
  rw [Source.octets, Nat.sub_self, List.take_zero]

theorem Fits.start_le (h : Fits start stop edits) : ∀ e ∈ edits, start ≤ e.span.start := by
  induction edits generalizing start with
  | nil => simp
  | cons e edits ih =>
    obtain ⟨hstart, hspan, hrest⟩ := h
    intro e' he'
    rcases List.mem_cons.1 he' with rfl | he'
    · exact hstart
    · have := ih hrest e' he'
      omega

/-- Of two edits the first ends before the second begins. -/
theorem Fits.pairwise (h : Fits start stop edits) :
    edits.Pairwise fun e e' => e.span.stop ≤ e'.span.start := by
  induction edits generalizing start with
  | nil => exact .nil
  | cons e edits ih =>
    obtain ⟨-, -, hrest⟩ := h
    exact List.pairwise_cons.2 ⟨hrest.start_le, ih hrest⟩

theorem Fits.of_le (hmid : start ≤ mid) (h : Fits mid stop edits) : Fits start stop edits := by
  cases edits with
  | nil => exact Nat.le_trans hmid h
  | cons e edits =>
    obtain ⟨hstart, hspan, hrest⟩ := h
    exact ⟨Nat.le_trans hmid hstart, hspan, hrest⟩

theorem Fits.append (h : Fits start mid edits) (hmore : Fits mid stop more) :
    Fits start stop (edits ++ more) := by
  induction edits generalizing start with
  | nil => exact hmore.of_le h
  | cons e edits ih =>
    obtain ⟨hstart, hspan, hrest⟩ := h
    exact ⟨hstart, hspan, ih hrest⟩

theorem splice_of_le (hmid : start ≤ mid) (h : Fits mid stop edits) :
    splice source start stop edits = source.octets start mid ++ splice source mid stop edits := by
  cases edits with
  | nil => exact (octets_append hmid h).symm
  | cons e edits =>
    obtain ⟨hstart, -, -⟩ := h
    rw [splice, splice, ← octets_append hmid hstart]
    simp only [List.append_assoc]

/-- Edits of neighbouring regions are applied region by region. -/
theorem splice_append (h : Fits start mid edits) (hmore : Fits mid stop more) :
    splice source start stop (edits ++ more) =
      splice source start mid edits ++ splice source mid stop more := by
  induction edits generalizing start with
  | nil => exact splice_of_le h hmore
  | cons e edits ih =>
    obtain ⟨-, -, hrest⟩ := h
    rw [List.cons_append, splice, splice, ih hrest]
    simp only [List.append_assoc]

/-- The octets of a region are part of those of a region around it. -/
theorem octets_within {start' stop' : Nat} (hstart : start ≤ start') (hle : start' ≤ stop')
    (hstop : stop' ≤ stop) : source.octets start' stop' <:+: source.octets start stop := by
  refine ⟨source.octets start start', source.octets stop' stop, ?_⟩
  rw [octets_append hstart hle, octets_append (Nat.le_trans hstart hle) hstop]

/-! ## Rewritten texts -/

/-- The text is the script between two positions with the edits applied. -/
structure Rewritten (source : Source) (start stop : Nat) (edits : List Edit) (text : List Char) :
    Prop where
  fits : Fits start stop edits
  encode_eq : encode text = splice source start stop edits

/-- A slice is rewritten by no edits. -/
theorem Rewritten.of_slice {text : List Char} (hle : start ≤ stop)
    (h : source.slice start stop = .ok text) : Rewritten source start stop [] text where
  fits := hle
  encode_eq := Text.Utf8.encode_of_decode h

/-- A text that replaces a whole region is one edit. -/
theorem Rewritten.replace (source : Source) (text : List Char) (hle : start ≤ stop) :
    Rewritten source start stop [⟨⟨start, stop⟩, text⟩] text where
  fits := ⟨Nat.le_refl _, hle, Nat.le_refl _⟩
  encode_eq := by simp [splice, octets_self]

theorem Rewritten.append {s t : List Char} (hs : Rewritten source start mid edits s)
    (ht : Rewritten source mid stop more t) :
    Rewritten source start stop (edits ++ more) (s ++ t) where
  fits := hs.fits.append ht.fits
  encode_eq := by
    rw [Text.Utf8.encode_append, hs.encode_eq, ht.encode_eq, splice_append hs.fits ht.fits]

/-- The text is a region of the script with the edits applied, in some order. -/
def Applies (source : Source) (start stop : Nat) (edits : List Edit) (text : List Char) : Prop :=
  ∃ sorted, Rewritten source start stop sorted text ∧ sorted.Perm edits

theorem Applies.append {s u : List Char} (hs : Applies source start mid edits s)
    (hu : Applies source mid stop more u) : Applies source start stop (edits ++ more) (s ++ u) := by
  obtain ⟨first, hfirst, hperm⟩ := hs
  obtain ⟨second, hsecond, hperm'⟩ := hu
  exact ⟨first ++ second, hfirst.append hsecond, hperm.append hperm'⟩

theorem Applies.of_slice {s : List Char} (hle : start ≤ stop)
    (h : source.slice start stop = .ok s) : Applies source start stop [] s :=
  ⟨[], .of_slice hle h, .nil⟩

theorem Applies.replace (source : Source) (s : List Char) (hle : start ≤ stop) :
    Applies source start stop [⟨⟨start, stop⟩, s⟩] s :=
  ⟨_, .replace source s hle, .refl _⟩

theorem Applies.of_perm {s : List Char} (h : Applies source start stop edits s)
    (hperm : edits.Perm more) : Applies source start stop more s := by
  obtain ⟨sorted, hsorted, hperm'⟩ := h
  exact ⟨sorted, hsorted, hperm'.trans hperm⟩

end Courier.Script
