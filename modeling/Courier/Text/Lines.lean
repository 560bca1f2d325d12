/-!
# Cutting texts into pieces and joining them

`splitLines` cuts at every line boundary of the Unicode standard and treats a carriage return with
its line feed as one boundary; a text that ends in a boundary has no empty last line.  `splitOn`
cuts at one character and always yields at least one piece, and `joinWith` is its inverse.
`cutAt` splits a text at the first occurrence of one character.
-/

namespace Courier.Text

/-- The characters that end a line. -/
def isLineBreak (c : Char) : Bool :=
  let n := c.toNat
  (10 ≤ n && n ≤ 13) || (28 ≤ n && n ≤ 30) || n == 0x85 || n == 0x2028 || n == 0x2029

/-- `line` holds the characters of the current line in reverse; `open_` says whether the line has
begun, since only a begun line is reported at the end of the text. -/
def splitLinesFrom (line : List Char) (begun : Bool) : List Char → List (List Char)
  | [] => if begun then [line.reverse] else []
  | '\r' :: '\n' :: rest => line.reverse :: splitLinesFrom [] false rest
  | c :: rest =>
    if isLineBreak c then line.reverse :: splitLinesFrom [] false rest
    else splitLinesFrom (c :: line) true rest

/-- The lines of a text, without their line breaks. -/
def splitLines (s : List Char) : List (List Char) := splitLinesFrom [] false s

/-- The pieces between the occurrences of `sep`. -/
def splitOn (sep : Char) : List Char → List (List Char)
  | [] => [[]]
  | c :: rest =>
    if c = sep then [] :: splitOn sep rest
    else match splitOn sep rest with
      | [] => [[c]]
      | piece :: pieces => (c :: piece) :: pieces

/-- Puts `sep` between the pieces. -/
def joinWith (sep : List Char) : List (List Char) → List Char
  | [] => []
  | [piece] => piece
  | piece :: pieces => piece ++ sep ++ joinWith sep pieces

/-- The text before the first `sep`, and the text after it when there is one. -/
def cutAt (sep : Char) : List Char → List Char × Option (List Char)
  | [] => ([], none)
  | c :: rest =>
    if c = sep then ([], some rest)
    else
      let (before, after) := cutAt sep rest
      (c :: before, after)

/-- `cutAt` with an absent second part read as the empty text. -/
def cutAtD (sep : Char) (s : List Char) : List Char × List Char :=
  let (before, after) := cutAt sep s
  (before, after.getD [])

/-- The text before and the text after the last `sep`, or `none` when it does not occur. -/
def cutAtLast? (sep : Char) (s : List Char) : Option (List Char × List Char) :=
  match cutAt sep s.reverse with
  | (_, none) => none
  | (after, some before) => some (before.reverse, after.reverse)

/-- Whether `needle` occurs in a text as consecutive characters. -/
def contains (needle : List Char) : List Char → Bool
  | [] => needle.isEmpty
  | s@(_ :: rest) => needle.isPrefixOf s || contains needle rest

/-- The lines cut at line feeds, as strings. -/
def lineStrings (s : List Char) : List String := (splitOn '\n' s).map String.ofList

theorem splitOn_ne_nil (sep : Char) (s : List Char) : splitOn sep s ≠ [] := by
  cases s with
  | nil => simp [splitOn]
  | cons c rest =>
    unfold splitOn
    split
    · simp
    · split <;> simp

/-- Joining undoes splitting. -/
theorem joinWith_splitOn (sep : Char) (s : List Char) : joinWith [sep] (splitOn sep s) = s := by
  induction s with
  | nil => rfl
  | cons c rest ih =>
    unfold splitOn
    split
    · rename_i h
      subst h
      match hs : splitOn c rest, splitOn_ne_nil c rest with
      | piece :: pieces, _ => rw [hs] at ih; simp [joinWith, ih]
    · match hs : splitOn sep rest, splitOn_ne_nil sep rest with
      | [piece], _ => rw [hs] at ih; simpa [joinWith] using ih
      | piece :: next :: pieces, _ => rw [hs] at ih; simpa [joinWith] using ih

/-- Nothing is lost at a cut. -/
theorem cutAt_append (sep : Char) (s : List Char) :
    (match cutAt sep s with
      | (before, none) => before
      | (before, some after) => before ++ sep :: after) = s := by
  induction s with
  | nil => rfl
  | cons c rest ih =>
    by_cases h : c = sep
    · simp [cutAt, h]
    · simp only [cutAt, h, if_false]
      match hc : cutAt sep rest with
      | (before, none) => rw [hc] at ih; simpa using ih
      | (before, some after) => rw [hc] at ih; simpa using ih

end Courier.Text
