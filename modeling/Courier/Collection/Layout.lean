import Courier.Collection.Discovery
import Courier.Collection.Tree
import Courier.Request.Document

/-!
# Arranging paths in a tree

Paths of files become a tree that has a folder for every directory on the way to one of them.  A
folder appears where the first of its files does, once for each way.  `FileTree.ofPaths` builds the
tree from the ways and a function that labels folders; on a disk a folder is labelled by the
document in it that describes it.
-/

namespace Courier

/-- A file with the way to it from the root of a tree. -/
structure Located where
  way : List String
  path : String
  deriving DecidableEq, Repr

namespace FileTree

/-- Changes the children of the folder of a name, which is added when it is missing. -/
def inFolder (name path : String) (label : Option String)
    (change : List (FileTree Unit) → List (FileTree Unit)) :
    List (FileTree Unit) → List (FileTree Unit)
  | [] => [.folder name path label (change [])]
  | .folder n p l children :: rest =>
    if n = name then .folder n p l (change children) :: rest
    else .folder n p l children :: inFolder name path label change rest
  | .file n p content :: rest => .file n p content :: inFolder name path label change rest

/-- Adds a file to the children of the folder at a path. -/
def insert (label : String → Option String) (parent file : String) :
    List String → List (FileTree Unit) → List (FileTree Unit)
  | [], children => children
  | [name], children => children ++ [.file name file ()]
  | name :: next :: way, children =>
    let path := Path.under parent name
    inFolder name path (label path) (insert label path file (next :: way)) children

/-- The tree of files, with the path of its root. -/
def ofPaths (label : String → Option String) (root : String) (files : List Located) :
    FileTree Unit :=
  .folder (String.ofList (Path.directoryName root.toList)) root none
    (files.foldl (fun children file => insert label root file.path file.way children) [])

/-- The paths of the folders on a way. -/
def foldersOn (parent : String) : List String → List String
  | [] | [_] => []
  | name :: next :: way =>
    let path := Path.under parent name
    path :: foldersOn path (next :: way)

/-- The paths of all folders of the tree below its root, in the order in which they appear. -/
def foldersOf (root : String) (files : List Located) : List String :=
  (files.flatMap fun file => foldersOn root file.way).eraseDups

end FileTree

namespace Disk

/-- The document that describes the folder at a path. -/
def folderDocument (path : String) : String := Path.under path Discovery.folderDocument

/-- What is known of the folder at a path, if a document describes it. -/
def folderInfo? (d : Disk) (path : String) : Option (Except FileFault Request.FolderInfo) :=
  if d.isFile (folderDocument path).toList then
    some ((d.readText (folderDocument path)).map Request.readFolder)
  else none

/-- The name under which the folder at a path is shown. -/
def folderLabel? (d : Disk) (path : String) : Option String :=
  match d.folderInfo? path with
  | some (.ok info) => info.name.filter (· ≠ "")
  | _ => none

/-- The warning that the document of the folder at a path cannot be read. -/
def folderWarning? (d : Disk) (path : String) : Option String :=
  match d.folderInfo? path with
  | some (.error fault) =>
    some s!"Could not read folder metadata {folderDocument path}: {fault.message}"
  | _ => none

/-- Paths in order, each with the way to it from a root. -/
def locateAll (d : Disk) (root : String) (paths : List String) : List Located :=
  (Discovery.sorted paths).map fun path =>
    ⟨(Path.relative d.cwdPath root.toList path.toList).map String.ofList, path⟩

/-- The tree of files on a disk. -/
def fileTree (d : Disk) (root : String) (paths : List String) : FileTree Unit :=
  .ofPaths d.folderLabel? root (d.locateAll root paths)

/-- The warnings about folders of the tree. -/
def fileTreeWarnings (d : Disk) (root : String) (paths : List String) : List String :=
  (FileTree.foldersOf root (d.locateAll root paths)).filterMap d.folderWarning?

end Disk

end Courier
