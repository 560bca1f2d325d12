/-!
# Blank characters and trimming

The white space of the Unicode standard, as a decidable class of characters, and the removal of
blank characters at the two ends of a text.  Texts are lists of characters, so every operation is
a structural recursion or a library function on lists.
-/

namespace Courier.Text

/-- White space: the separators of Unicode, the ASCII layout controls, the four ASCII information
separators and the next-line control. -/
def isBlank (c : Char) : Bool :=
  let n := c.toNat
  (9 ≤ n && n ≤ 13) || (28 ≤ n && n ≤ 32) || n == 0x85 || n == 0xA0 || n == 0x1680 ||
  (0x2000 ≤ n && n ≤ 0x200A) || n == 0x2028 || n == 0x2029 || n == 0x202F || n == 0x205F ||
  n == 0x3000

/-- The indentation characters, which are the space and the tab. -/
def isIndent (c : Char) : Bool := c == ' ' || c == '\t'

/-- Drops the longest end whose characters all satisfy `p`. -/
def dropEndWhile (p : Char → Bool) (s : List Char) : List Char :=
  (s.reverse.dropWhile p).reverse

def trimStart (s : List Char) : List Char := s.dropWhile isBlank

def trimEnd (s : List Char) : List Char := dropEndWhile isBlank s

/-- Removes blank characters from both ends. -/
def trim (s : List Char) : List Char := trimEnd (trimStart s)

/-- Removes one given character from both ends, as often as it occurs there. -/
def trimChar (c : Char) (s : List Char) : List Char :=
  dropEndWhile (· == c) (s.dropWhile (· == c))

/-- Every white space character of core's class is blank here too. -/
theorem isBlank_of_isWhitespace {c : Char} (h : c.isWhitespace) : isBlank c := by
  simp only [Char.isWhitespace, Bool.or_eq_true, decide_eq_true_eq] at h
  rcases h with ((rfl | rfl) | rfl) | rfl <;> decide

@[simp] theorem trim_nil : trim [] = [] := rfl

end Courier.Text
