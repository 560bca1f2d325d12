import Courier.Collection.Schema
import Courier.Section.Pair

/-!
# Environments

An environment is a list of variables under a name.  Its document has sections of pairs, and lists
that name the variables to be kept secret.  A name in such a list refers to the last variable of
that name that has been read before it; a name without variable becomes a variable without value.
-/

namespace Courier

open Text (trim splitOn)

structure Variable where
  key : String
  value : String
  enabled : Bool
  secret : Bool
  deriving DecidableEq, Repr

structure Environment where
  name : String
  entries : List Variable
  deriving DecidableEq, Repr

namespace Environment

/-- The word before a pair that marks its variable as secret. -/
def secretWord : List Char := "secret ".toList

/-- The variable of a line. -/
def readVariable? (line : Line) : Option Variable :=
  let s := trim line
  let marked := secretWord.isPrefixOf s
  (Pair.ofLine? (if marked then s.drop secretWord.length else s)).map fun p =>
    ⟨p.key, p.value, p.enabled, marked⟩

/-- A name in a list of secrets, with tildes before it removed, and whether it had none. -/
def readSecretName (text : List Char) : String × Bool :=
  (String.ofList (trim (text.dropWhile (· == '~'))), text.head? != some '~')

/-- The names in a line of a list of secrets. -/
def readSecretNames (line : Line) : List (String × Bool) :=
  (((splitOn ',' line).map trim).filter (!·.isEmpty)).map readSecretName

/-- Marks the last variable of a name as secret, if there is one. -/
def markLast? (key : String) : List Variable → Option (List Variable)
  | [] => none
  | v :: rest =>
    match markLast? key rest with
    | some rest => some (v :: rest)
    | none => if v.key = key then some ({ v with secret := true } :: rest) else none

/-- Keeps a named variable secret. -/
def addSecret (entries : List Variable) (secret : String × Bool) : List Variable :=
  let (key, enabled) := secret
  (markLast? key entries).getD (entries ++ [⟨key, "", enabled, true⟩])

/-- Adds what a section says to the variables before it. -/
def addSection (entries : List Variable) (s : Section) : List Variable :=
  if s.name = "vars" then entries ++ s.lines.filterMap readVariable?
  else if s.name = "vars:secret" then
    (s.lines.flatMap readSecretNames).foldl addSecret entries
  else entries

/-- Reads an environment from the text of its document. -/
def ofText (name : String) (text : List Char) : Environment :=
  ⟨name, (Section.scan text).foldl addSection []⟩

/-- What is stamped on an environment when it is written. -/
structure Stamp where
  id : String
  time : String
  deriving DecidableEq, Repr

/-- The program named on written environments. -/
def exporter : String := "bru2postman"

def valueJson (v : Variable) : Json :=
  .object [("key", .string v.key), ("value", .string v.value), ("enabled", .bool v.enabled),
    ("type", .string (if v.secret then "secret" else "default"))]

/-- The written form of an environment. -/
def toJson (stamp : Stamp) (e : Environment) : Json :=
  .object [
    ("id", .string stamp.id),
    ("name", .string e.name),
    ("values", .array (e.entries.map valueJson)),
    ("_postman_variable_scope", .string "environment"),
    ("_postman_exported_at", .string stamp.time),
    ("_postman_exported_using", .string exporter)]

/-- The validated form of an environment. -/
def exported (stamp : Stamp) (e : Environment) : Except Schema.Rejection Json :=
  Collection.validateEnvironment (e.toJson stamp)

/-- The variables as they are read, in full. -/
def variableJson (v : Variable) : Json :=
  .object [("key", .string v.key), ("value", .string v.value), ("enabled", .bool v.enabled),
    ("secret", .bool v.secret)]

end Environment

end Courier
