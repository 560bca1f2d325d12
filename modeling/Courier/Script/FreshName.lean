import Courier.Script.Scope

/-!
# Fresh names

A new name for a variable is a variant of a given one: the name itself, or else the name with 2, 3
and so on, until no name of the script is written like it (`freeName`).  The variants differ from
each other, so the search comes to an end: what a script can still refuse is counted by `untried`.
-/

namespace Courier.Script

open Text (Utf8.Fault)

/-- The variants of a name in the order they are tried: the name, then the name with 2, 3, … -/
def nameVariant (base : List Char) : Nat → List Char
  | 0 => base
  | n + 1 => base ++ (toString (n + 2)).toList

theorem nameVariant_inj {base : List Char} {m n : Nat}
    (h : nameVariant base m = nameVariant base n) : m = n := by
  have hdigits (k : Nat) : (toString k).toList = Nat.toDigits 10 k := by
    rw [Nat.toString_eq_repr, Nat.toList_repr]
  have hnil (k : Nat) : base ≠ base ++ (toString k).toList := by
    rw [hdigits, Ne, List.self_eq_append_right]
    exact List.ne_nil_of_length_pos Nat.length_toDigits_pos
  rcases m with _ | m <;> rcases n with _ | n
  · rfl
  · exact absurd h (hnil _)
  · exact absurd h.symm (hnil _)
  · -- the digits of a number read back as the number
    have hsuffix := List.append_cancel_left h
    rw [hdigits, hdigits] at hsuffix
    have hnumber := congrArg (fun digits => Nat.ofDigitChars 10 digits 0) hsuffix
    simpa using hnumber

/-- Whether a name is one of the first `n` variants. -/
def isTried (base : List Char) (n : Nat) (name : List Char) : Bool :=
  ((List.range n).map (nameVariant base)).contains name

theorem isTried_succ (base : List Char) (n : Nat) (name : List Char) :
    isTried base (n + 1) name = (isTried base n name || name == nameVariant base n) := by
  rw [isTried, List.range_succ, List.map_append, List.contains_append, List.map_singleton,
    List.contains_cons, List.contains_nil, Bool.or_false, isTried]

theorem isTried_nameVariant (base : List Char) (n : Nat) :
    isTried base n (nameVariant base n) = false := by
  rw [isTried, List.contains_eq_mem, decide_eq_false_iff_not, List.mem_map]
  rintro ⟨m, hm, heq⟩
  exact absurd (nameVariant_inj heq) (Nat.ne_of_lt (List.mem_range.1 hm))

/-- The number of used names that are none of the first `n` variants. -/
def untried (base : List Char) (used : List (List Char)) (n : Nat) : Nat :=
  (used.filter (!isTried base n ·)).length

theorem untried_succ_lt {base : List Char} {used : List (List Char)} {n : Nat}
    (h : nameVariant base n ∈ used) : untried base used (n + 1) < untried base used n := by
  have hsplit : used.filter (!isTried base (n + 1) ·) =
      (used.filter (!isTried base n ·)).filter (· != nameVariant base n) := by
    rw [List.filter_filter]
    refine List.filter_congr fun name _ => ?_
    rw [isTried_succ, Bool.not_or, Bool.and_comm, bne]
  rw [untried, hsplit]
  refine List.length_filter_lt_length_iff_exists.2 ⟨nameVariant base n, ?_, by simp⟩
  rw [List.mem_filter, isTried_nameVariant]
  exact ⟨h, rfl⟩

/-- The first variant of a name, from the `n`-th on, that is not used.  The search ends because each
variant that is used is one name less to come upon. -/
def freshFrom (base : List Char) (used : List (List Char)) (n : Nat) : List Char :=
  if nameVariant base n ∈ used then freshFrom base used (n + 1) else nameVariant base n
termination_by untried base used n
decreasing_by exact untried_succ_lt ‹_›

/-- The first variant of a name that no name of a tree is written as. -/
def freeName (source : Source) (base : List Char) (root : Tree) :
    Except Utf8.Fault (List Char) :=
  return freshFrom base (← usedNames source root) 0

end Courier.Script
