import Courier.Json.Value
import Courier.Decimal.Shortest
import Courier.Text.Lines

/-!
# Writing JSON

`Layout` decides how a value is laid out: with line breaks and an indentation per level, or on one
line, and with or without escapes for all characters beyond ASCII.  Strings are escaped by
`escape`, numbers are written in the style of reports.
-/

namespace Courier.Json

/-- How values are laid out. -/
structure Layout where
  /-- The number of spaces per level, or `none` for one line. -/
  indent : Option Nat
  /-- Whether characters beyond ASCII are written as escapes. -/
  ascii : Bool
  deriving DecidableEq, Repr

/-- Files have two spaces per level and keep all printable characters. -/
def fileLayout : Layout := ⟨some 2, false⟩

/-- Messages take one line of ASCII. -/
def lineLayout : Layout := ⟨none, true⟩

/-- Four hexadecimal digits. -/
def hex4 (n : Nat) : List Char :=
  [Nat.digitChar (n / 4096 % 16), Nat.digitChar (n / 256 % 16), Nat.digitChar (n / 16 % 16),
    Nat.digitChar (n % 16)]

/-- A code point as one escape or, beyond the first plane, as the escapes of a surrogate pair. -/
def escapeCodePoint (n : Nat) : List Char :=
  if n < 65536 then '\\' :: 'u' :: hex4 n
  else
    let m := n - 65536
    '\\' :: 'u' :: hex4 (0xD800 + m / 1024) ++ '\\' :: 'u' :: hex4 (0xDC00 + m % 1024)

/-- A character inside a string. -/
def escapeChar (ascii : Bool) (c : Char) : List Char :=
  if c = '"' then ['\\', '"']
  else if c = '\\' then ['\\', '\\']
  else if c = '\n' then ['\\', 'n']
  else if c = '\r' then ['\\', 'r']
  else if c = '\t' then ['\\', 't']
  else if c = '\x08' then ['\\', 'b']
  else if c = '\x0c' then ['\\', 'f']
  else if c.toNat < 32 || (ascii && c.toNat > 126) then escapeCodePoint c.toNat
  else [c]

/-- A string in double quotes. -/
def escape (ascii : Bool) (s : String) : List Char :=
  '"' :: s.toList.flatMap (escapeChar ascii) ++ ['"']

/-- A line break with the indentation of a level, or nothing on one line. -/
def Layout.newline (layout : Layout) (level : Nat) : List Char :=
  match layout.indent with
  | none => []
  | some width => '\n' :: List.replicate (width * level) ' '

/-- What separates the items of a container. -/
def Layout.separator (layout : Layout) (level : Nat) : List Char :=
  match layout.indent with
  | none => [',', ' ']
  | some _ => ',' :: layout.newline level

mutual

/-- The text of a value at a level of nesting. -/
def printAt (layout : Layout) (level : Nat) : Json → List Char
  | .null => "null".toList
  | .bool true => "true".toList
  | .bool false => "false".toList
  | .int n => (toString n).toList
  | .real x =>
    (Decimal.shortest { Decimal.reportStyle with nan := "NaN", infinity := "Infinity" } x).toList
  | .string s | .broken s => escape layout.ascii s
  | .array [] => ['[', ']']
  | .array items =>
    '[' :: layout.newline (level + 1) ++
      Text.joinWith (layout.separator (level + 1)) (printItems layout (level + 1) items) ++
      layout.newline level ++ [']']
  | .object [] => ['\x7b', '\x7d']
  | .object members =>
    '\x7b' :: layout.newline (level + 1) ++
      Text.joinWith (layout.separator (level + 1)) (printMembers layout (level + 1) members) ++
      layout.newline level ++ ['\x7d']

def printItems (layout : Layout) (level : Nat) : List Json → List (List Char)
  | [] => []
  | item :: items => printAt layout level item :: printItems layout level items

def printMembers (layout : Layout) (level : Nat) : List (String × Json) → List (List Char)
  | [] => []
  | (key, value) :: members =>
    (escape layout.ascii key ++ ": ".toList ++ printAt layout level value) ::
      printMembers layout level members

end

/-- The text of a value. -/
def print (layout : Layout) (value : Json) : String := String.ofList (printAt layout 0 value)

end Courier.Json
