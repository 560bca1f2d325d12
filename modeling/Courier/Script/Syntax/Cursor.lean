import Courier.Script.Tree

/-!
# Places in a script

A cursor is a place in a script: the characters that follow, and how many octets come before.  It
stands where the last token ends.  Blanks and comments are skipped when the next token is wanted;
`Cursor.skipGap` does that, and `skipGap_rest_length_le` says that it only drops characters.
-/

namespace Courier.Script.Syntax

/-- A place in a script. -/
structure Cursor where
  rest : List Char
  offset : Nat
  deriving DecidableEq, Repr

/-- The place `n` characters further on. -/
def Cursor.advance (n : Nat) (c : Cursor) : Cursor :=
  ⟨c.rest.drop n, (c.rest.take n).foldl (fun offset ch => offset + ch.utf8Size) c.offset⟩

/-- Characters that may stand between two tokens. -/
def isGap (c : Char) : Bool :=
  let n := c.toNat
  (9 ≤ n && n ≤ 13) || n == 0x20 || n == 0xA0 || n == 0x1680 || (0x2000 ≤ n && n ≤ 0x200B) ||
    n == 0x2028 || n == 0x2029 || n == 0x202F || n == 0x205F || n == 0x2060 || n == 0x3000 ||
    n == 0xFEFF

/-- Characters that end a line. -/
def isLineBreak (c : Char) : Bool := c == '\n' || c == '\u2028' || c == '\u2029'

/-- The length of the text up to and including the first end mark of a comment. -/
def closedLength? : List Char → Option Nat
  | '*' :: '/' :: _ => some 2
  | _ :: cs => (closedLength? cs).map (· + 1)
  | [] => none

/-- The length of the rest of a line. -/
def lineLength (cs : List Char) : Nat := (cs.takeWhile fun c => !isLineBreak c && c != '\r').length

/-- The length of the comment at the start of a text.  A comment that is never closed is none. -/
def commentLength? : List Char → Option Nat
  | '/' :: '/' :: cs => some (lineLength cs + 2)
  | '/' :: '*' :: cs => (closedLength? cs).map (· + 2)
  | _ => none

/-- One less than the length of the blank or comment at the start of a text. -/
def gapLength? : List Char → Option Nat
  | [] => none
  | c :: cs => if isGap c then some 0 else (commentLength? (c :: cs)).map (· - 1)

/-- The place of the next token. -/
def Cursor.skipGap (c : Cursor) : Cursor :=
  match h : gapLength? c.rest with
  | none => c
  | some n => skipGap (c.advance (n + 1))
termination_by c.rest.length
decreasing_by
  have : c.rest ≠ [] := fun e => by simp [e, gapLength?] at h
  have := List.length_pos_iff.mpr this
  simp only [Cursor.advance, List.length_drop]
  omega

theorem Cursor.skipGap_rest_length_le (c : Cursor) : c.skipGap.rest.length ≤ c.rest.length := by
  fun_induction Cursor.skipGap c with
  | case1 c h => exact Nat.le_refl _
  | case2 c n h ih =>
    have : (c.advance (n + 1)).rest.length ≤ c.rest.length := by simp [Cursor.advance]
    exact Nat.le_trans ih this

/-- A line that only an older kind of comment mark opens. -/
def markedLineLength? : List Char → Option Nat
  | '<' :: '!' :: '-' :: '-' :: cs => some (lineLength cs + 4)
  | '-' :: '-' :: '>' :: cs => some (lineLength cs + 3)
  | _ => none

/-- The place of the next token where a statement may begin.  Lines that begin with an older kind
of comment mark are skipped as well, among as many as `lines` says. -/
def Cursor.skipMarkedLines : Nat → Cursor → Cursor
  | 0, c => c
  | lines + 1, c =>
    match markedLineLength? c.skipGap.rest with
    | none => c
    | some n => skipMarkedLines lines (c.skipGap.advance n)

end Courier.Script.Syntax
