import Courier.Decimal.Shortest
import Courier.Json.Value
import Courier.Text.Lines
import Courier.Text.Quoted

/-!
# JSON values in messages

A value that is named in a message is written by `inspect`, with its texts quoted.  A value that is
a text itself is written as it stands by `display`.  Values of different kinds have type names, and
some values count as absent.
-/

namespace Courier.Json

mutual

/-- A value with its texts quoted. -/
def inspectChars : Json → List Char
  | .null => "None".toList
  | .bool true => "True".toList
  | .bool false => "False".toList
  | .int n => (toString n).toList
  | .real x => (Decimal.shortest Decimal.reportStyle x).toList
  | .string s | .broken s => Text.quoted s.toList
  | .array items => '[' :: Text.joinWith ", ".toList (inspectItems items) ++ [']']
  | .object members =>
    '\x7b' :: Text.joinWith ", ".toList (inspectMembers members) ++ ['\x7d']

def inspectItems : List Json → List (List Char)
  | [] => []
  | item :: items => inspectChars item :: inspectItems items

def inspectMembers : List (String × Json) → List (List Char)
  | [] => []
  | (key, value) :: members =>
    (Text.quoted key.toList ++ ": ".toList ++ inspectChars value) :: inspectMembers members

end

/-- A value in a message, quoted when it is a text. -/
def inspect (value : Json) : String := String.ofList (inspectChars value)

/-- A value in a message. -/
def display : Json → String
  | .string s | .broken s => s
  | value => inspect value

/-- The name of the type of a value. -/
def typeName : Json → String
  | .null => "NoneType"
  | .bool _ => "bool"
  | .int _ => "int"
  | .real _ => "float"
  | .string _ | .broken _ => "str"
  | .array _ => "list"
  | .object _ => "dict"

/-- Whether a value counts as given.  Nothing, falsehood, zero and everything empty do not. -/
def isPresent : Json → Bool
  | .null => false
  | .bool b => b
  | .int n => n != 0
  | .real x => x.exponentBits != 0 || x.fractionBits != 0
  | .string s | .broken s => s != ""
  | .array items => !items.isEmpty
  | .object members => !members.isEmpty

end Courier.Json
