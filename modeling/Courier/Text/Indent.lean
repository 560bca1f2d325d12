import Courier.Text.Blank
import Courier.Text.Lines

/-!
# Common indentation

The lines of a block share an indentation that belongs to the block and not to its text.  The
margin of a list of lines is the longest text of spaces and tabs that all of them begin with, where
lines of spaces and tabs only do not count.  `dedent` empties those lines and removes the margin
from the others.  `blockText` also drops the empty lines at both ends and joins the rest.  A line
given to it may hold line feeds of its own, which count as line ends.
-/

namespace Courier.Text

/-- The spaces and tabs a line begins with. -/
def indentation (line : List Char) : List Char := line.takeWhile isIndent

/-- A line of spaces and tabs only carries no text. -/
def isVoid (line : List Char) : Bool := line.all isIndent

/-- The longest common beginning of two texts. -/
def commonStart : List Char → List Char → List Char
  | a :: as, b :: bs => if a = b then a :: commonStart as bs else []
  | _, _ => []

/-- The common beginning of all texts of a list, which is empty for the empty list. -/
def commonStartAll : List (List Char) → List Char
  | [] => []
  | first :: rest => rest.foldl commonStart first

/-- The indentation shared by the lines that carry text. -/
def margin (lines : List (List Char)) : List Char :=
  commonStartAll ((lines.filter (fun line => !isVoid line)).map indentation)

/-- Removes the margin, and empties the lines that carry no text. -/
def dedent (lines : List (List Char)) : List (List Char) :=
  let width := (margin lines).length
  lines.map fun line => if isVoid line then [] else line.drop width

/-- The text of a block given by its lines. -/
def blockText (lines : List (List Char)) : List Char :=
  trimChar '\n' (joinWith ['\n'] (dedent (splitOn '\n' (joinWith ['\n'] lines))))

end Courier.Text
