import Courier.Url.Placeholder

/-!
# Hosts and ports

A port follows its host after a colon.  It is a run of decimal digits or one placeholder; what
follows a colon otherwise belongs to the host.
-/

namespace Courier.Url

/-- The parts before and after each occurrence of a character, in order. -/
def cutsAt (sep : Char) : List Char → List (List Char × List Char)
  | [] => []
  | c :: rest =>
    let later := (cutsAt sep rest).map fun (before, after) => (c :: before, after)
    if c = sep then ([], rest) :: later else later

/-- The text without its last line feed. -/
def dropFinalNewline (s : List Char) : List Char :=
  if s.getLast? = some '\n' then s.dropLast else s

/-- A run of digits, or one placeholder. -/
def isPort (s : List Char) : Bool :=
  (!s.isEmpty && s.all Text.isDecimal) ||
    (match leadingName? s with
      | some name => s.length == name.length + 4
      | none => false)

/-- The host and the port of a text.  The host has to be on one line; a line feed after the port
does not count. -/
def splitHostPort (s : List Char) : List Char × Option (List Char) :=
  let fits (cut : List Char × List Char) : Option (List Char × List Char) :=
    let (host, after) := cut
    let port := dropFinalNewline after
    if !host.isEmpty && !host.contains '\n' && isPort port then some (host, port) else none
  match (cutsAt ':' s).reverse.findSome? fits with
  | some (host, port) => (host, some port)
  | none => (s, none)

end Courier.Url
