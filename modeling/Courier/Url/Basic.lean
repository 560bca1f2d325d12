import Courier.Url.Port
import Courier.Url.Reference

/-!
# Addresses of requests

The address of a request is taken apart into protocol, host, port, path, query and hash.  It may
hold placeholders.  An address that begins with one, and one that does not follow the generic
syntax, is split by the plain rules of `Url.splitPlainly`; every other address is masked, split by
the generic syntax and unmasked part by part.
-/

namespace Courier

open Text (cutAt cutAtD splitOn dropEndWhile)

/-- A parameter of a query. -/
structure Parameter where
  key : String
  value : String
  deriving DecidableEq, Repr

/-- The parts of an address. -/
structure Url where
  raw : String
  protocol : Option String
  host : List String
  port : Option String
  path : List String
  query : List Parameter
  hash : Option String
  placeholders : List String
  deriving DecidableEq, Repr

namespace Url

/-- Why an address does not follow the generic syntax.  A token without placeholder is the one
fault that an address cannot recover from. -/
inductive Fault where
  | authority (fault : AuthorityFault)
  | noAuthority
  | port (hostPort : List Char)
  | token (fault : TokenFault)
  deriving DecidableEq, Repr

def Fault.message : Fault → String
  | .authority fault => fault.message
  | .noAuthority => "no scheme://host part"
  | .port hostPort => s!"invalid port in '{String.ofList hostPort}'"
  | .token .unknown => "list index out of range"
  | .token (.tooLong digits) =>
    s!"Exceeds the limit ({Text.maxNumeralDigits} digits) for integer string conversion: " ++
      s!"value has {digits} digits; use sys.set_int_max_str_digits() to increase the limit"

/-- The keys and values of a query. -/
def splitQuery (s : List Char) : List (List Char × List Char) :=
  ((splitOn '&' s).filter (!·.isEmpty)).map (cutAtD '=')

/-- The parameters of a query. -/
def parameters (s : List Char) : List Parameter :=
  (splitQuery s).map fun (key, value) => ⟨String.ofList key, String.ofList value⟩

/-- The parts of a path that are not empty. -/
def segments (s : List Char) : List (List Char) := (splitOn '/' s).filter (!·.isEmpty)

def strings (xs : List (List Char)) : List String := xs.map String.ofList

/-- A text, or nothing when it is empty. -/
def nonempty? (s : List Char) : Option String := if s.isEmpty then none else some (String.ofList s)

/-- The names of the placeholders of an address, each once. -/
def placeholdersOf (raw : List Char) : List String := strings (variablesOf raw)

/-- The protocol before a colon and two slashes, and the rest. -/
def splitProtocol (s : List Char) : Option (List Char) × List Char :=
  match cutAt ':' s with
  | (scheme, some ('/' :: '/' :: rest)) => if isScheme scheme then (some scheme, rest) else (none, s)
  | _ => (none, s)

/-- Splits an address by plain rules: hash, query, protocol, and the first part of the path as
host. -/
def splitPlainly (raw : List Char) : Url :=
  let (rest, hash) := cutAt '#' raw
  let (rest, query) := cutAt '?' rest
  let (protocol, rest) := splitProtocol rest
  let parts := segments rest
  let (host, port) := match parts.head? with
    | some part =>
      let (host, port) := splitHostPort part
      ([host], port)
    | none => ([], none)
  { raw := String.ofList raw
    protocol := protocol.map String.ofList
    host := strings host
    port := port.map String.ofList
    path := strings parts.tail
    query := (query.map parameters).getD []
    hash := hash.map String.ofList
    placeholders := placeholdersOf raw }

/-- The host and the port of an authority without credentials. -/
def splitAuthority (hostPort : List Char) : Except Fault (List Char × Option (List Char)) :=
  if hostPort.head? = some '[' then
    let (host, rest) := cutAtD ']' hostPort
    let port := match rest with
      | ':' :: port => some port
      | _ => none
    .ok (host ++ [']'], port)
  else
    match splitHostPort hostPort with
    | (host, some port) => .ok (dropEndWhile (· == ':') host, some port)
    | (host, none) =>
      let host' := dropEndWhile (· == ':') host
      if host'.contains ':' then .error (.port hostPort) else .ok (host', none)

/-- Splits an address by the generic syntax. -/
def splitGenerically (raw : List Char) : Except Fault Url := do
  let mask := Mask.ofText raw
  let restore (s : List Char) : Except Fault String :=
    (mask.restore s).mapError .token |>.map String.ofList
  let parts ← (Reference.ofText (mask.apply raw)).mapError .authority
  if parts.scheme.isEmpty || parts.authority.isEmpty then throw .noAuthority
  let hostPort ← restore (dropCredentials parts.authority)
  let (host, port) ← splitAuthority hostPort.toList
  let path ← (segments parts.path).mapM restore
  let query ← (splitQuery parts.query).mapM fun (key, value) => do
    let key ← restore key
    let value ← restore value
    return Parameter.mk key value
  let hash ← if parts.fragment.isEmpty then pure none else some <$> restore parts.fragment
  return {
    raw := String.ofList raw
    protocol := some (String.ofList parts.scheme)
    host := if host.isEmpty then [] else [String.ofList host]
    port := port.bind nonempty?
    path, query, hash
    placeholders := placeholdersOf raw }

/-- Whether an address is split by plain rules from the start. -/
def startsWithPlaceholder (raw : List Char) : Bool := "\x7b\x7b".toList.isPrefixOf raw

/-- Takes an address apart.  The only failure is a token that the address itself forms. -/
def ofText (raw : List Char) : Except TokenFault Url :=
  if startsWithPlaceholder raw then .ok (splitPlainly raw)
  else match splitGenerically raw with
    | .ok url => .ok url
    | .error (.token .unknown) => .error .unknown
    | .error _ => .ok (splitPlainly raw)

/-- What is noted when an address does not follow the generic syntax. -/
def notice? (raw : List Char) : Option String :=
  if startsWithPlaceholder raw then none
  else match splitGenerically raw with
    | .ok _ | .error (.token .unknown) => none
    | .error fault =>
      some (s!"Standard URL parsing failed for '{String.ofList raw}' ({fault.message}), " ++
        "splitting manually.")

end Url

end Courier
