import Courier.Files.Path
import Courier.Members
import Courier.Text.Quoted
import Courier.Text.Utf8

/-!
# Files and directories

A disk is a tree of directories with files of octets.  A path is followed component by component
from the root or from the working directory; only directories can be passed through.  Operations
fail as the system says, with the path they were given, and so they do where the device refuses or
breaks off what the directories would allow (`Device`).

A file is opened before it is written: it is there, and empty unless what it holds is kept, when
writing breaks off.
-/

namespace Courier

/-- A file or a directory with its entries. -/
inductive Entry where
  | file (content : List UInt8)
  | directory (entries : List (String × Entry))
  deriving Repr, Inhabited

/-- The number and the words by which the system names a refusal. -/
structure SystemCause where
  number : Nat
  words : String
  deriving DecidableEq, Repr

namespace SystemCause

def notFound : SystemCause := ⟨2, "No such file or directory"⟩

def present : SystemCause := ⟨17, "File exists"⟩

def notDirectory : SystemCause := ⟨20, "Not a directory"⟩

def isDirectory : SystemCause := ⟨21, "Is a directory"⟩

/-- The causes by which permission is denied: an operation that is not permitted, and an access. -/
def denials : List Nat := [1, 13]

/-- Whether permission is denied. -/
def denies (cause : SystemCause) : Bool := denials.contains cause.number

def text (cause : SystemCause) : String := s!"[Errno {cause.number}] {cause.words}"

end SystemCause

/-- Why a file or directory cannot be read, written or made. -/
inductive SystemFault where
  /-- The system refuses it.  It names the path, unless the file has already been opened. -/
  | refused (cause : SystemCause) (path : Option String)
  /-- No path holds a null character. -/
  | nullInPath
  deriving DecidableEq, Repr

def SystemFault.message : SystemFault → String
  | .refused cause (some path) => s!"{cause.text}: {String.ofList (Text.quoted path.toList)}"
  | .refused cause none => cause.text
  | .nullInPath => "embedded null byte"

namespace Entry

def isDirectory : Entry → Bool
  | .directory _ => true
  | .file _ => false

/-- The entry of a name in a directory. -/
def child? (name : String) : Entry → Option Entry
  | .directory entries => entries.lookup name
  | .file _ => none

/-- The entry at the end of a way down. -/
def at? : List String → Entry → Option Entry
  | [], e => some e
  | name :: rest, e => (e.child? name).bind (at? rest)

/-- Puts an entry at the end of a way down, through directories that are there. -/
def putAt (value : Entry) : List String → Entry → Entry
  | [], _ => value
  | name :: rest, .directory entries =>
    let below := (entries.lookup name).getD (.directory [])
    .directory (Members.put name (putAt value rest below) entries)
  | _ :: _, .file content => .file content

/-- The octets of a file. -/
def content : Entry → List UInt8
  | .file content => content
  | .directory _ => []

end Entry

/-- How a device fails where the directories and files on it would not.  Whether an entry can be
read depends on the entry alone; whether one can be written or made may depend on all that is
there. -/
structure Device where
  /-- Why a file may not be opened for reading. -/
  withholds : List String → Option SystemCause := fun _ => none
  /-- Why the octets of a file that has been opened cannot be read. -/
  loses : List String → Option SystemCause := fun _ => none
  /-- Why a file may not be opened for writing, or a directory be made. -/
  forbids : Entry → List String → Option SystemCause := fun _ _ => none
  /-- After how many octets the writing of a file that has been opened breaks off, and why. -/
  breaksOff : Entry → List String → List UInt8 → Option (Nat × SystemCause) := fun _ _ _ => none

/-- The directories and files of a system, the way to the working directory, and the device that
holds them. -/
structure Disk where
  root : Entry
  cwd : List String
  device : Device := {}

namespace Disk

/-- The working directory as a path. -/
def cwdPath (d : Disk) : Path.Chars :=
  '/' :: Text.joinWith ['/'] (d.cwd.map String.toList)

/-- Follows components from a directory.  A step up leads to the directory above. -/
def follow (d : Disk) (way : List String) : List Path.Chars → Except SystemCause (List String)
  | [] => .ok way
  | component :: rest =>
    match d.root.at? way with
    | none => .error .notFound
    | some (.file _) => .error .notDirectory
    | some (.directory entries) =>
      if component = [] ∨ component = ['.'] then d.follow way rest
      else if component = ['.', '.'] then d.follow way.dropLast rest
      else
        let name := String.ofList component
        if rest.isEmpty || (entries.lookup name).isSome then d.follow (way ++ [name]) rest
        else .error .notFound

/-- Where the components of a path lead.  The last one need not be there. -/
def locateComponents (d : Disk) (path : Path.Chars) (components : List Path.Chars) :
    Except SystemCause (List String) :=
  d.follow (if Path.isAbsolute path then [] else d.cwd) components

/-- Where a path leads.  The last component need not be there. -/
def locate (d : Disk) (path : Path.Chars) : Except SystemCause (List String) :=
  if path.isEmpty then .error .notFound else d.locateComponents path (Text.splitOn '/' path)

/-- The file or directory of a path. -/
def find (d : Disk) (path : Path.Chars) : Except SystemCause Entry := do
  let way ← d.locate path
  match d.root.at? way with
  | some e => .ok e
  | none => .error .notFound

def exists? (d : Disk) (path : Path.Chars) : Bool := (d.find path).toBool

def isFile (d : Disk) (path : Path.Chars) : Bool :=
  match d.find path with
  | .ok (.file _) => true
  | _ => false

def isDirectory (d : Disk) (path : Path.Chars) : Bool :=
  match d.find path with
  | .ok (.directory _) => true
  | _ => false

/-- Adds the path to a refusal. -/
def refused {α : Type} (path : Path.Chars) (result : Except SystemCause α) :
    Except SystemFault α :=
  result.mapError fun cause => .refused cause (some (String.ofList path))

/-- Passes when there is no cause against it. -/
def pass : Option SystemCause → Except SystemCause Unit
  | some cause => .error cause
  | none => .ok ()

/-- Passes when a path can be that of a file or directory. -/
def checkPath (path : Path.Chars) : Except SystemFault Unit :=
  if '\x00' ∈ path then .error .nullInPath else .ok ()

/-! ## Reading -/

/-- The octets that a file holds. -/
def read (d : Disk) (path : Path.Chars) : Except SystemFault (List UInt8) :=
  refused path do
    match ← d.find path with
    | .file content => .ok content
    | .directory _ => .error .isDirectory

/-- The octets of a file that is opened for reading. -/
def fetch (d : Disk) (path : Path.Chars) : Except SystemFault (List UInt8) := do
  checkPath path
  let content ← d.read path
  let way ← refused path (d.locate path)
  refused path (pass (d.device.withholds way))
  (pass (d.device.loses way)).mapError (.refused · none)
  return content

/-! ## Writing -/

/-- Passes when a directory stands at the end of a way. -/
def checkDirectory (d : Disk) (way : List String) : Except SystemCause Unit :=
  match d.root.at? way with
  | some (.directory _) => .ok ()
  | some (.file _) => .error .notDirectory
  | none => .error .notFound

/-- The directory in which a path can be made, and the name it is to have. -/
def place (d : Disk) (path : Path.Chars) : Except SystemCause (List String) := do
  let way ← d.locate path
  d.checkDirectory way.dropLast
  return way

/-- What is wrong with a path for a file that ends in slashes: the way to its last component, or
that it means a directory. -/
def slashCause (d : Disk) (path : Path.Chars) : SystemCause :=
  let components := (Text.splitOn '/' (Text.dropEndWhile (· == '/') path)).dropLast
  match (do d.checkDirectory (← d.locateComponents path components)) with
  | .error cause => cause
  | .ok () => .isDirectory

/-- The way to a file that may be opened for writing.  It need not be there. -/
def placeFile (d : Disk) (path : Path.Chars) : Except SystemCause (List String) :=
  if path.getLast? = some '/' then .error (d.slashCause path)
  else do
    let way ← d.place path
    pass (if (d.root.at? way).any Entry.isDirectory then some .isDirectory else none)
    pass (d.device.forbids d.root way)
    return way

/-- The octets that stand at the end of a way. -/
def held (d : Disk) (way : List String) : List UInt8 :=
  ((d.root.at? way).map Entry.content).getD []

/-- Puts a file at the end of a way. -/
def putFile (d : Disk) (way : List String) (content : List UInt8) : Disk :=
  { d with root := (Entry.file content).putAt way d.root }

/-- Opens a file for writing, with the way to it.  What the file holds is lost unless it is kept. -/
def openFile (d : Disk) (path : Path.Chars) (keeps : Bool) :
    Except SystemFault (List String × Disk) := do
  checkPath path
  let way ← refused path (d.placeFile path)
  return (way, d.putFile way (if keeps then d.held way else []))

/-- Adds octets to a file that has been opened, or as many of them as can be written. -/
def store (d : Disk) (way : List String) (octets : List UInt8) : Except SystemFault Unit × Disk :=
  match d.device.breaksOff d.root way octets with
  | some (count, cause) =>
    (.error (.refused cause none), d.putFile way (d.held way ++ octets.take count))
  | none => (.ok (), d.putFile way (d.held way ++ octets))

/-- Opens a file and writes octets as what it holds. -/
def write (d : Disk) (path : Path.Chars) (octets : List UInt8) : Except SystemFault Unit × Disk :=
  match d.openFile path false with
  | .error fault => (.error fault, d)
  | .ok (way, opened) => opened.store way octets

/-- Adds octets to a file that is open, as far as they can be written. -/
def append (d : Disk) (path : Path.Chars) (octets : List UInt8) : Disk :=
  match d.place path with
  | .error _ => d
  | .ok way =>
    match d.root.at? way with
    | some (.file _) => (d.store way octets).2
    | _ => d

/-! ## Making directories -/

/-- Makes a directory. -/
def makeDirectory (d : Disk) (path : Path.Chars) : Except SystemFault Disk := do
  checkPath path
  refused path do
    let way ← d.place path
    pass (if (d.root.at? way).isSome then some .present else none)
    pass (d.device.forbids d.root way)
    return { d with root := (Entry.directory []).putAt way d.root }

/-- Makes directories one below the other as far as they are missing, the first of them below the
path `made`.  Something else in the way is passed over, so that the refusal is about the directory
below it.  Those that have been made by then stay. -/
def makeDirectoriesFrom (d : Disk) (made : Path.Chars) :
    List Path.Chars → Except SystemFault Unit × Disk
  | [] => (.ok (), d)
  | component :: rest =>
    let path := made ++ '/' :: component
    if d.isDirectory path then d.makeDirectoriesFrom path rest
    else if d.exists? path && !rest.isEmpty then d.makeDirectoriesFrom path rest
    else match d.makeDirectory path with
      | .error fault => (.error fault, d)
      | .ok d => d.makeDirectoriesFrom path rest

/-- Makes a directory with those above it. -/
def makeDirectories (d : Disk) (path : Path.Chars) : Except SystemFault Unit × Disk :=
  d.makeDirectoriesFrom [] (Path.components path)

end Disk

end Courier
