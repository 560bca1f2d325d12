import Courier.Json.Display

/-!
# Settings

Settings are the members of a mapping.  Six of its keys mean something here.  A value may be of any
type; where a value is used as a list of names or as a path, the values that cannot be one are
refused by the name of their type.
-/

namespace Courier

/-- The members of a mapping of settings. -/
abbrev Settings := List (String × Json)

/-- Why a value cannot be used as it has to be: as a list, as a name in a list, or as a path. -/
inductive SettingFault where
  | noList (type : String)
  | noName (type : String)
  | noPath (type : String)
  deriving DecidableEq, Repr

def SettingFault.message : SettingFault → String
  | .noList type => s!"'{type}' object is not iterable"
  | .noName type => s!"unhashable type: '{type}'"
  | .noPath type => s!"expected str, bytes or os.PathLike object, not {type}"

namespace Settings

/-- The keys that mean something. -/
inductive Key where
  | collectionName
  | output
  | scriptConversion
  | includeEnvironments
  | excludedDirectories
  | collectionId
  deriving DecidableEq, Repr

/-- The spelling of a key. -/
def Key.text : Key → String
  | .collectionName => "COLLECTION_NAME"
  | .output => "OUTPUT"
  | .scriptConversion => "SCRIPT_CONVERSION"
  | .includeEnvironments => "INCLUDE_ENV"
  | .excludedDirectories => "EXCLUDE_DIRS"
  | .collectionId => "POSTMAN_COLLECTION_ID"

/-- The value of a key, which is null when the key is missing. -/
def get (settings : Settings) (key : Key) : Json := (settings.lookup key.text).getD .null

/-- The name that an item of a list stands for.  Items of other types than text name nothing. -/
def nameOf : Json → Except SettingFault (List String)
  | .string name => .ok [name]
  | .array items => .error (.noName (Json.array items).typeName)
  | .object members => .error (.noName (Json.object members).typeName)
  | _ => .ok []

/-- The names in a value that is used as a list.  A text stands for its characters, a mapping for
its keys, and a value that does not count as given for no names. -/
def names (value : Json) : Except SettingFault (List String) :=
  if !value.isPresent then .ok []
  else match value with
    | .array items => (items.mapM nameOf).map List.flatten
    | .string text => .ok (text.toList.map String.singleton)
    | .object members => .ok (members.map (·.1))
    | other => .error (.noList other.typeName)

/-- The path in a value, if it counts as given. -/
def path? (value : Json) : Except SettingFault (Option String) :=
  if !value.isPresent then .ok none
  else match value with
    | .string path => .ok (some path)
    | other => .error (.noPath other.typeName)

end Settings

end Courier
