import Courier.Text.Quoted
import Courier.Url.Address

/-!
# Generic syntax of addresses

An address in the generic syntax is a scheme and a colon, two slashes with an authority, a path, a
query after a question mark and a fragment after a hash sign, in this order.  Every part but the
path may be missing; missing parts are read as empty ones.
-/

namespace Courier.Url

open Text (cutAt cutAtD cutAtLast?)

/-- The parts of an address. -/
structure Reference where
  scheme : List Char
  authority : List Char
  path : List Char
  query : List Char
  fragment : List Char
  deriving DecidableEq, Repr

/-- What is wrong with an authority. -/
inductive AuthorityFault where
  | unbalancedBrackets
  | laterVersion
  | fourthVersion
  | noAddress (host : List Char)
  | forbiddenForm (authority : List Char)
  deriving DecidableEq, Repr

def AuthorityFault.message : AuthorityFault → String
  | .unbalancedBrackets => "Invalid IPv6 URL"
  | .laterVersion => "IPvFuture address is invalid"
  | .fourthVersion => "An IPv4 address cannot be in brackets"
  | .noAddress host =>
    s!"{String.ofList (Text.quoted host)} does not appear to be an IPv4 or IPv6 address"
  | .forbiddenForm authority =>
    s!"netloc '{String.ofList authority}' contains invalid characters under NFKC normalization"

/-- Letters, digits, plus and minus signs and points. -/
def isSchemeChar (c : Char) : Bool := c.isAlphanum || c == '+' || c == '-' || c == '.'

/-- A scheme begins with a letter. -/
def isScheme (s : List Char) : Bool := (s.head?.any Char.isAlpha) && s.all isSchemeChar

/-- Removes what may surround or interrupt an address: controls and spaces before it, and tabs and
line ends anywhere. -/
def clean (s : List Char) : List Char :=
  (s.dropWhile (·.toNat ≤ 32)).filter fun c => c != '\t' && c != '\r' && c != '\n'

/-- The scheme in lower case and what follows its colon. -/
def splitScheme (s : List Char) : List Char × List Char :=
  match cutAt ':' s with
  | (scheme, some rest) => if isScheme scheme then (scheme.map Char.toLower, rest) else ([], s)
  | (_, none) => ([], s)

/-- Characters that end an authority. -/
def endsAuthority (c : Char) : Bool := c == '/' || c == '?' || c == '#'

/-- Characters beyond ASCII whose compatibility form holds a character that is significant in
addresses. -/
def expandsToDelimiter (c : Char) : Bool :=
  c.toNat ∈ [0x2047, 0x2048, 0x2049, 0x2100, 0x2101, 0x2105, 0x2106, 0x2A74, 0xFE13, 0xFE16,
    0xFE55, 0xFE56, 0xFE5F, 0xFE6B, 0xFF03, 0xFF0F, 0xFF1A, 0xFF1F, 0xFF20]

/-- Checks what stands in brackets. -/
def checkBracketed (host : List Char) : Except AuthorityFault Unit :=
  if host.head? = some 'v' then
    if isLaterVersion host then .ok () else .error .laterVersion
  else if isFourthVersion host then .error .fourthVersion
  else if isSixthVersion host then .ok ()
  else .error (.noAddress host)

/-- What follows the credentials in an authority. -/
def dropCredentials (authority : List Char) : List Char :=
  match cutAtLast? '@' authority with
  | some (_, hostPort) => hostPort
  | none => authority

/-- Checks the host of an authority with brackets.  Nothing may stand before the opening bracket,
and only a port after the closing one. -/
def checkHost (hostPort : List Char) : Except AuthorityFault Unit :=
  match cutAt '[' hostPort with
  | (host, none) => checkBracketed (cutAtD ':' host).1
  | (before, some bracketed) =>
    let (host, after) := cutAtD ']' bracketed
    if !before.isEmpty || !(after.isEmpty || after.head? = some ':') then
      .error .unbalancedBrackets
    else checkBracketed host

/-- Checks the brackets of an authority. -/
def checkBrackets (authority : List Char) : Except AuthorityFault Unit :=
  match authority.contains '[', authority.contains ']' with
  | true, true => checkHost (dropCredentials authority)
  | false, false => .ok ()
  | _, _ => .error .unbalancedBrackets

/-- Refuses characters that turn into significant ones in compatibility form. -/
def checkForm (authority : List Char) : Except AuthorityFault Unit :=
  if authority.any expandsToDelimiter then .error (.forbiddenForm authority) else .ok ()

/-- Takes an address apart. -/
def Reference.ofText (s : List Char) : Except AuthorityFault Reference := do
  let (scheme, rest) := splitScheme (clean s)
  let (authority, rest) :=
    match rest with
    | '/' :: '/' :: after =>
      (after.takeWhile (!endsAuthority ·), after.dropWhile (!endsAuthority ·))
    | _ => ([], rest)
  checkBrackets authority
  let (rest, fragment) := cutAtD '#' rest
  let (path, query) := cutAtD '?' rest
  checkForm authority
  return { scheme, authority, path, query, fragment }

end Courier.Url
