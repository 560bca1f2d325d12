import Courier.Decimal.Double
import Courier.Members

/-!
# JSON values

Objects keep their members in the order in which the keys were first put, and hold each key once
when they are built with `Members.put`.  Whole numbers have any size.  A text may hold halves of
surrogate pairs, which are no characters, so that it cannot be written to a file.
-/

namespace Courier

open Decimal (Double)

/-- A JSON value. -/
inductive Json where
  | null
  | bool (b : Bool)
  | int (n : Int)
  | real (x : Double)
  | string (s : String)
  /-- A text with halves of surrogate pairs, for each of which there is U+FFFD in `s`. -/
  | broken (s : String)
  | array (items : List Json)
  | object (members : List (String × Json))
  deriving Repr, Inhabited

namespace Json

/-- The value of a key of an object. -/
def get? (key : String) : Json → Option Json
  | .object members => members.lookup key
  | _ => none

/-- The members of an object, in which later values of a key replace earlier ones. -/
def ofMembers (members : List (String × Json)) : Json :=
  .object (Members.ofList members)

def strings (xs : List String) : Json := .array (xs.map .string)

/-- The member `key` when there is a value for it. -/
def member? (key : String) (value : Option Json) : List (String × Json) :=
  match value with
  | none => []
  | some v => [(key, v)]

end Json

end Courier
