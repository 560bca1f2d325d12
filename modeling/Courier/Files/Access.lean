import Courier.Files.Disk

/-!
# Texts in files

Files hold texts in UTF-8.  A text is read with every line end turned into a line feed, and written
as it is; writing makes the directories above the file.  A failure says which file it is about, what
kind of failure it is, and why.
-/

namespace Courier

/-- The kinds of failures. -/
inductive AccessKind where
  | notFound
  | permission
  | io
  deriving DecidableEq, Repr

def AccessKind.name : AccessKind → String
  | .notFound => "not-found"
  | .permission => "permission"
  | .io => "io"

/-- A file or directory that cannot be read or written. -/
structure AccessFault where
  path : String
  kind : AccessKind
  reason : String
  deriving DecidableEq, Repr

def AccessFault.message (f : AccessFault) : String := s!"Failed to access {f.path}: {f.reason}"

/-- Why there is no text to be had from a path, or none to be put there. -/
inductive FileFault where
  | access (fault : AccessFault)
  | nullInPath
  deriving DecidableEq, Repr

namespace FileFault

def message : FileFault → String
  | .access fault => fault.message
  | .nullInPath => SystemFault.nullInPath.message

/-- A refusal to write a file, or to make the directories above it. -/
def ofWriting (path : String) : SystemFault → FileFault
  | .refused cause named =>
    if cause.denies then .access ⟨path, .permission, "permission denied"⟩
    else .access ⟨path, .io, (SystemFault.refused cause named).message⟩
  | .nullInPath => .nullInPath

/-- A refusal to read a file.  Only here is it a failure of its own that the file is missing. -/
def ofReading (path : String) : SystemFault → FileFault
  | .refused cause named =>
    if cause.number = SystemCause.notFound.number then .access ⟨path, .notFound, "file not found"⟩
    else ofWriting path (.refused cause named)
  | .nullInPath => .nullInPath

end FileFault

namespace Disk

/-- Turns every line end into a line feed. -/
def unifyLineEnds : List Char → List Char
  | [] => []
  | '\r' :: '\n' :: rest => '\n' :: unifyLineEnds rest
  | '\r' :: rest => '\n' :: unifyLineEnds rest
  | c :: rest => c :: unifyLineEnds rest

/-- The text of a file. -/
def readText (d : Disk) (path : String) : Except FileFault (List Char) := do
  let content ← (d.fetch path.toList).mapError (.ofReading path)
  let text ← (Text.Utf8.decode content).mapError fun fault => .access ⟨path, .io, fault.message⟩
  return unifyLineEnds text

/-- Makes the directories above an absolute path. -/
def makeParents (path : Path.Chars) (d : Disk) : Except SystemFault Unit × Disk :=
  d.makeDirectories (Path.directory path)

/-- Writes a text as a file, and makes the directories above it.  These stay when the file cannot be
written, and so does what has been written of it. -/
def writeText (path : String) (text : List Char) (d : Disk) : Except FileFault Unit × Disk :=
  match makeParents (Path.absolute d.cwdPath path.toList) d with
  | (.error fault, made) => (.error (.ofWriting path fault), made)
  | (.ok (), made) =>
    let (result, written) := made.write path.toList (Text.Utf8.encode text)
    (result.mapError (.ofWriting path), written)

end Disk

end Courier
