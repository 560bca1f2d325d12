import Courier.Members
import Courier.Section.Basic
import Courier.Text.Word

/-!
# Pairs

The lines of many sections are pairs of a key and a value with a colon between them.  A tilde before
the key marks a pair that is switched off.  `Pair.ofLine?` reads a line; lines that are no pairs are
passed over by `Pair.ofLines`.

The name of a body or authentication section ends in a variant such as `json` or `basic`, which
`variant?` reads.
-/

namespace Courier

open Text (trim cutAt isWord)

/-- A key with a value. -/
structure Pair where
  key : String
  value : String
  enabled : Bool
  deriving DecidableEq, Repr

namespace Pair

/-- Removes the tilde that marks a key as switched off, and says whether the key is on. -/
def readKey (key : List Char) : List Char × Bool :=
  match key with
  | '~' :: rest => (trim rest, false)
  | _ => (key, true)

/-- The pair a line holds.  A line without a colon or without a key holds none. -/
def ofLine? (line : Line) : Option Pair :=
  match cutAt ':' (trim line) with
  | (_, none) => none
  | (before, some after) =>
    let (key, enabled) := readKey (trim before)
    if key.isEmpty then none
    else some ⟨String.ofList key, String.ofList (trim after), enabled⟩

/-- The pairs of a section. -/
def ofLines (lines : List Line) : List Pair := lines.filterMap ofLine?

/-- The value of a key, of which the last pair counts. -/
def last? (key : String) (pairs : List Pair) : Option String :=
  (pairs.reverse.find? (·.key = key)).map (·.value)

/-- The keys and values of pairs, each key once, with the value of its last pair. -/
def fields (pairs : List Pair) : List (String × String) :=
  Members.ofList (pairs.map fun p => (p.key, p.value))

end Pair

namespace Section

/-- A character of the name of a variant. -/
def isVariantChar (c : Char) : Bool := isWord c || c == '-'

/-- The variant that follows the first colon of a body or authentication section.  A variant is one
word, in which hyphens may stand; a line feed after it does not count. -/
def variant? (name : String) : Option String :=
  match cutAt ':' name.toList with
  | (before, some after) =>
    let word := if after.getLast? = some '\n' then after.dropLast else after
    if (before = "body".toList || before = "auth".toList) && !word.isEmpty &&
        word.all isVariantChar then
      some (String.ofList word)
    else none
  | (_, none) => none

/-- The value a table has for the variant of a section: `none` for a name without variant, and
`unknown` for a variant that is not in the table. -/
def variantIn {α : Type} (table : List (String × α)) (unknown none : α) (name : String) : α :=
  match variant? name with
  | .none => none
  | some word => (table.lookup word).getD unknown

end Section

end Courier
