import Courier.Files.Access

/-!
# Finding documents

The documents of a collection are the files of one extension in a directory and below.  Hidden
directories and those of some names are passed over with all they hold, and so are the documents
that describe a folder and not a request.  The directory that is searched may have any name.
-/

namespace Courier.Discovery

/-- The extension of documents. -/
def extension : String := ".bru"

/-- The document that describes its folder. -/
def folderDocument : String := "folder.bru"

/-- Documents that hold no request. -/
def descriptions : List String := ["collection.bru", folderDocument]

/-- Directories that are always passed over. -/
def skippedNames : List String := ["node_modules", "__pycache__"]

def isHidden (name : String) : Bool := name.toList.head? == some '.'

/-- Whether a directory is passed over. -/
def isSkipped (excluded : List String) (name : String) : Bool :=
  isHidden name || skippedNames.contains name || excluded.contains name

/-- Whether a name ends in the extension of documents. -/
def hasExtension (name : String) : Bool := extension.toList.isSuffixOf name.toList

/-- Whether a file is the document of a request. -/
def isDocument (name : String) : Bool :=
  hasExtension name && !isHidden name && !descriptions.contains name

mutual

/-- The documents at a path where an entry of some name stands. -/
def documentsAt (excluded : List String) (name path : String) : Entry → List String
  | .file _ => if isDocument name then [path] else []
  | .directory entries =>
    if isSkipped excluded name then [] else documentsIn excluded path entries

/-- The documents below a directory with these entries. -/
def documentsIn (excluded : List String) (directory : String) :
    List (String × Entry) → List String
  | [] => []
  | (name, entry) :: rest =>
    documentsAt excluded name (Path.under directory name) entry ++
      documentsIn excluded directory rest

end

/-- Paths in the order of their code points. -/
def sorted (paths : List String) : List String := paths.mergeSort fun a b => decide (a ≤ b)

/-- The paths of the documents in a directory and below. -/
def documents (d : Disk) (excluded : List String) (directory : String) :
    Except AccessFault (List String) :=
  match d.find directory.toList with
  | .ok (.directory entries) => .ok (sorted (documentsIn excluded directory entries))
  | _ => .error ⟨directory, .notFound, "directory not found"⟩

/-! ## Environments -/

/-- The folder of the environments of a collection. -/
def environmentsFolder : String := "environments"

/-- Whether a document belongs to the environments of a collection. -/
def isEnvironment (d : Disk) (directory path : String) : Bool :=
  (Path.relative d.cwdPath directory.toList path.toList).head? == some environmentsFolder.toList

end Courier.Discovery
