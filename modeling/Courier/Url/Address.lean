import Courier.Text.Digit
import Courier.Text.Lines

/-!
# Numeric host addresses

The host of an address may be given in brackets, as a number of the sixth version of the Internet
protocol or of a later version.  A number of the sixth version is eight groups of up to four
hexadecimal digits between colons; one run of groups may be left out at a double colon, and the last
two groups may be written as a number of the fourth version.  A zone may follow after a percent
sign.
-/

namespace Courier.Url

open Text (splitOn cutAt isHexDigit)

/-- A number from 0 to 255 without leading zeros. -/
def isOctet (s : List Char) : Bool :=
  !s.isEmpty && s.length ≤ 3 && s.all Char.isDigit && (s == ['0'] || s.head? != some '0') &&
    s.foldl (fun n c => 10 * n + (c.toNat - '0'.toNat)) 0 ≤ 255

/-- A number of the fourth version. -/
def isFourthVersion (s : List Char) : Bool :=
  let parts := splitOn '.' s
  parts.length == 4 && parts.all isOctet

/-- One to four hexadecimal digits. -/
def isGroup (s : List Char) : Bool := !s.isEmpty && s.length ≤ 4 && s.all isHexDigit

/-- The number of groups in a list of which every part is a group.  When `isEnd`, the last part may
be a number of the fourth version, which counts as two groups. -/
def countGroups? (isEnd : Bool) : List (List Char) → Option Nat
  | [] => some 0
  | [part] =>
    if isGroup part then some 1
    else if isEnd && isFourthVersion part then some 2
    else none
  | part :: parts => if isGroup part then (countGroups? isEnd parts).map (· + 1) else none

/-- The parts between colons, of which the empty text has none. -/
def colonParts (s : List Char) : List (List Char) := if s.isEmpty then [] else splitOn ':' s

/-- The texts before and after the first double colon. -/
def cutDoubleColon? : List Char → Option (List Char × List Char)
  | ':' :: ':' :: rest => some ([], rest)
  | [] => none
  | c :: rest => (cutDoubleColon? rest).map fun (before, after) => (c :: before, after)

/-- The groups of a number of the sixth version. -/
def isGroups (s : List Char) : Bool :=
  match cutDoubleColon? s with
  | none => countGroups? true (colonParts s) == some 8
  | some (before, after) =>
    match countGroups? false (colonParts before), countGroups? true (colonParts after) with
    | some a, some b => a + b ≤ 7
    | _, _ => false

/-- A number of the sixth version, with a zone or without one. -/
def isSixthVersion (s : List Char) : Bool :=
  match cutAt '%' s with
  | (groups, none) => isGroups groups
  | (groups, some zone) => !zone.isEmpty && !zone.contains '%' && isGroups groups

/-- A number of a later version: the letter `v`, the version in hexadecimal digits, a point, and
anything. -/
def isLaterVersion : List Char → Bool
  | 'v' :: s =>
    match cutAt '.' s with
    | (version, some rest) => !version.isEmpty && version.all isHexDigit && !rest.isEmpty
    | (_, none) => false
  | _ => false

end Courier.Url
