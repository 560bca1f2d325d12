import Courier.Text.Lines
import Courier.Text.Blank

/-!
# Paths

Paths are texts whose components stand between slashes.  The functions below only look at the text:
they join and split paths, remove what is redundant in them, and relate one path to another.  A path
that begins with a slash is absolute; all others are relative to a working directory.
-/

namespace Courier.Path

open Text (splitOn joinWith dropEndWhile)

/-- A path as a list of characters. -/
abbrev Chars := List Char

def isAbsolute (path : Chars) : Bool := path.head? == some '/'

/-- The components of a path, without empty ones. -/
def components (path : Chars) : List Chars := (splitOn '/' path).filter (!·.isEmpty)

/-- The text after the last slash. -/
def baseName (path : Chars) : Chars := (path.reverse.takeWhile (· != '/')).reverse

/-- The text up to the last slash, without the slashes at its end unless there is nothing else. -/
def directory (path : Chars) : Chars :=
  let head := (path.reverse.dropWhile (· != '/')).reverse
  if head.all (· == '/') then head else dropEndWhile (· == '/') head

/-- The path of something below a directory.  An absolute path stands for itself. -/
def join (parent path : Chars) : Chars :=
  if isAbsolute path then path
  else if parent.isEmpty || parent.getLast? = some '/' then parent ++ path
  else parent ++ '/' :: path

/-- A base name before and from its last dot.  Dots that begin the name do not count. -/
def splitBase (base : Chars) : Chars × Chars :=
  let dots := base.takeWhile (· == '.')
  let rest := base.dropWhile (· == '.')
  let tail := rest.reverse.takeWhile (· != '.')
  if tail.length = rest.length then (base, [])
  else (dots ++ rest.take (rest.length - tail.length - 1), '.' :: tail.reverse)

/-- A path before its extension, and the extension with its dot. -/
def splitExtension (path : Chars) : Chars × Chars :=
  let base := baseName path
  let (stem, extension) := splitBase base
  (path.take (path.length - base.length) ++ stem, extension)

def extension (path : Chars) : Chars := (splitExtension path).2

/-- Adds a component to a stack of components, in which a step up removes the one before it.  From
an absolute root there is no way up. -/
def push (absolute : Bool) (stack : List Chars) (component : Chars) : List Chars :=
  if component = [] ∨ component = ['.'] then stack
  else if component ≠ ['.', '.'] then component :: stack
  else match stack with
    | [] => if absolute then [] else [component]
    | top :: rest => if top = ['.', '.'] then component :: stack else rest

/-- The slashes an absolute path begins with: two are kept, more are one. -/
def leadingSlashes : Chars → Chars
  | '/' :: '/' :: '/' :: _ => ['/']
  | '/' :: '/' :: _ => ['/', '/']
  | '/' :: _ => ['/']
  | _ => []

/-- A path without redundant components. -/
def normalise (path : Chars) : Chars :=
  let slashes := leadingSlashes path
  let stack := (splitOn '/' path).foldl (push !slashes.isEmpty) []
  let text := slashes ++ joinWith ['/'] stack.reverse
  if text.isEmpty then ['.'] else text

/-- The absolute form of a path, given the working directory. -/
def absolute (cwd path : Chars) : Chars := normalise (join cwd path)

/-- The number of components two lists begin with in common. -/
def commonLength : List Chars → List Chars → Nat
  | a :: as, b :: bs => if a = b then commonLength as bs + 1 else 0
  | _, _ => 0

/-- The way from one list of components to another. -/
def relativeComponents (start target : List Chars) : List Chars :=
  let n := commonLength start target
  List.replicate (start.length - n) ['.', '.'] ++ target.drop n

/-- The components of a path as seen from a directory. -/
def relative (cwd start path : Chars) : List Chars :=
  let way := relativeComponents (components (absolute cwd start)) (components (absolute cwd path))
  if way.isEmpty then [['.']] else way

/-- The name of the directory a path leads to. -/
def directoryName (path : Chars) : Chars := baseName (normalise path)

/-! ## Paths as strings -/

/-- The path of something below a directory. -/
def under (parent path : String) : String := String.ofList (join parent.toList path.toList)

/-- The base name of a path without its extension. -/
def stem (path : String) : String :=
  String.ofList (splitBase (baseName path.toList)).1

/-- The path of the directory something stands in. -/
def parent (path : String) : String := String.ofList (directory path.toList)

end Courier.Path
