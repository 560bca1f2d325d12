import Courier.Collection.Item

/-!
# Trees of files

A collection mirrors a tree of files.  In every folder the sub-folders come first, by name, and then
the requests: those with a number by their number, those without after them, and equal ones by the
name of their file.  Folders without requests are left out.

Building works from the leaves up: the computations for the children of a folder are put in order
before they are run.
-/

namespace Courier

/-- A tree of files with contents.  The path of a file or folder is kept for reports; a folder may
have a name to be shown. -/
inductive FileTree (α : Type) where
  | file (name path : String) (content : α)
  | folder (name path : String) (displayName : Option String) (children : List (FileTree α))
  deriving Repr

namespace FileTree

variable {α : Type}

def name : FileTree α → String
  | .file name _ _ => name
  | .folder name _ _ _ => name

/-- The name under which a folder is shown.  An empty name does not count. -/
def shownName : FileTree α → String
  | .file name _ _ => name
  | .folder name _ (some shown) _ => if shown = "" then name else shown
  | .folder name _ none _ => name

end FileTree

/-- A phase in which a file can fail. -/
inductive FailureKind where
  | file
  | parse
  | validation
  deriving DecidableEq, Repr

namespace FailureKind

def name : FailureKind → String
  | .file => "file"
  | .parse => "parse"
  | .validation => "validation"

def phase : FailureKind → String
  | .file | .parse => "parse"
  | .validation => "validate"

def suggestion : FailureKind → String
  | .file | .parse => "Check the .bru file syntax and ensure all required sections are present"
  | .validation =>
    "Check the request fields; the converted item does not match the Postman schema"

end FailureKind

/-- A file that is left out, and why. -/
structure Failure where
  path : String
  message : String
  kind : FailureKind
  deriving DecidableEq, Repr

def Failure.toJson (f : Failure) : Json :=
  .object [("file_path", .string f.path), ("message", .string f.message),
    ("type", .string f.kind.name), ("phase", .string f.kind.phase),
    ("suggestion", .string f.kind.suggestion)]

namespace Collection

open Script (Strategy)
open Schema (Rejection)

/-- An item of a collection: a request that has been validated, or a folder. -/
inductive Item where
  | request (content : Json)
  | folder (name : String) (items : List Item)
  deriving Repr

mutual

def Item.toJson : Item → Json
  | .request content => content
  | .folder name items => .object [("name", .string name), ("item", .array (itemsJson items))]

def itemsJson : List Item → List Json
  | [] => []
  | item :: items => item.toJson :: itemsJson items

end

/-- What building a tree yields: items, warnings about scripts, and the requests left out. -/
structure Yield where
  items : List Item
  warnings : List String
  failures : List Failure
  deriving Repr

namespace Yield

def empty : Yield := ⟨[], [], []⟩

def append (a b : Yield) : Yield :=
  ⟨a.items ++ b.items, a.warnings ++ b.warnings, a.failures ++ b.failures⟩

/-- The yield of a folder is one item, or none when it holds no items. -/
def inFolder (label : String) (y : Yield) : Yield :=
  { y with items := if y.items.isEmpty then [] else [.folder label y.items] }

end Yield

/-- How a tree is built: how scripts are converted, which items are accepted, and whether a rejected
one is left out; otherwise it ends the building. -/
structure Options where
  strategy : Strategy
  accept : Json → Except Rejection Json
  leaveOut : Bool

/-- Builds the item of the request in a file. -/
def buildRequest (o : Options) (path : String) (r : Request) : Building Yield := do
  let built ← buildItem o.strategy r.metadata.name r
  match o.accept built.item with
  | .ok item => return ⟨[.request item], built.warnings, []⟩
  | .error rejection =>
    if !o.leaveOut then throw (.rejected rejection)
    Logging.report .debug s!"Schema validation failed for {path}: {rejection.message}"
    return ⟨[], built.warnings, [⟨path, rejection.message, .validation⟩]⟩

/-- The place of a request among its siblings. -/
structure Rank where
  seq : Option Int
  name : String
  deriving DecidableEq, Repr

/-- Numbers come before no number, smaller ones first, and equal ones by name. -/
def Rank.le (a b : Rank) : Bool :=
  match a.seq, b.seq with
  | some m, some n => m < n || (m = n && decide (a.name ≤ b.name))
  | some _, none => true
  | none, some _ => false
  | none, none => decide (a.name ≤ b.name)

/-- A child of a folder with the computation for it. -/
inductive Child where
  | folder (name : String) (build : Building Yield)
  | request (rank : Rank) (build : Building Yield)
  | nothing

/-- The computations for children, those of folders first. -/
def arrange (children : List Child) : List (Building Yield) :=
  let folders := children.filterMap fun c => match c with
    | .folder name build => some (name, build)
    | _ => none
  let requests := children.filterMap fun c => match c with
    | .request rank build => some (rank, build)
    | _ => none
  (folders.mergeSort fun a b => decide (a.1 ≤ b.1)).map (·.2) ++
    (requests.mergeSort fun a b => a.1.le b.1).map (·.2)

/-- Runs computations in order and joins their yields. -/
def runAll : List (Building Yield) → Building Yield
  | [] => return .empty
  | build :: rest => do
    let first ← build
    let others ← runAll rest
    return first.append others

mutual

/-- The computation for a child of a folder. -/
def child (o : Options) : FileTree (Option Request) → Child
  | .file name path (some r) => .request ⟨r.metadata.seq, name⟩ (buildRequest o path r)
  | .file _ _ none => .nothing
  | .folder name path shown children =>
    .folder name (do
      let y ← runAll (arrange (childList o children))
      return y.inFolder (FileTree.folder name path shown children).shownName)

def childList (o : Options) : List (FileTree (Option Request)) → List Child
  | [] => []
  | t :: ts => child o t :: childList o ts

end

/-- Builds the items of a tree, given by its root.  The root itself is no item. -/
def buildTree (o : Options) : FileTree (Option Request) → Building Yield
  | .file _ _ _ => return .empty
  | .folder _ _ _ children => runAll (arrange (childList o children))

end Collection

end Courier
