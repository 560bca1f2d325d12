import Courier.Command.Moment
import Courier.Command.Run
import Courier.Script.Syntax
import Std.Time.DateTime

/-!
# The program

The program runs on a copy of the files it may need: the input, the settings beside it, and the
files that its arguments name.  What the run has changed is then written back.  There is no
connection to the service for uploads, so every call is answered with a failure.
-/

namespace Courier.Program

open Command

/-! ## Reading files -/

/-- Directories whose contents are never needed. -/
def isIgnored (name : String) : Bool := Discovery.isSkipped [] name

/-- The file or directory at a path. -/
partial def load (path : String) : IO Entry := do
  let real ← IO.FS.realPath path
  if ← real.isDir then
    let found ← real.readDir
    let entries ← found.toList.mapM fun child => do
      let entry ← if isIgnored child.fileName && (← child.path.isDir) then pure (.directory [])
        else load child.path.toString
      return (child.fileName, entry)
    return .directory entries
  else return .file (← IO.FS.readBinFile path).toList

/-- Adds the file or directory at an absolute path, if there is one. -/
def loadInto (root : Entry) (path : Path.Chars) : IO Entry := do
  try
    let entry ← load (String.ofList path)
    return entry.putAt ((Path.components path).map String.ofList) root
  catch _ => return root

/-! ## Writing files -/

/-- Writes what differs between two states of a file or directory. -/
partial def store (path : String) (before : Option Entry) : Entry → IO Unit
  | .file content => do
    match before with
    | some (.file old) => if old = content then return
    | _ => pure ()
    IO.FS.writeBinFile path ⟨content.toArray⟩
  | .directory entries => do
    let known := before.any Entry.isDirectory
    if !known then IO.FS.createDirAll path
    for (name, entry) in entries do
      store s!"{path}/{name}" (before.bind (·.child? name)) entry

/-! ## Running -/

/-- The paths that the arguments make relevant. -/
def relevantPaths (cwd : Path.Chars) : Invocation → List Path.Chars
  | .convert a =>
    let input := Path.absolute cwd a.input.toList
    let beside := Settings.fileNames.map fun name => Path.join (Path.directory input) name.toList
    let named := [a.settings, a.logFile, a.output].filterMap id
    [input] ++ beside ++ named.map fun path => Path.absolute cwd path.toList
  | _ => []

/-- The moment at which the program asks. -/
def now : IO Moment := do
  let t ← Std.Time.Timestamp.now
  return ⟨(t.toNanosecondsSinceUnixEpoch.val / 1000).toNat⟩

/-- A random number. -/
def randomNumber : IO Nat := do
  let octets ← IO.getRandomBytes 16
  return octets.toList.foldl (fun n octet => 256 * n + octet.toNat) 0

/-- The surroundings of a run that begins at a moment. -/
def surroundings (start : Moment) : IO Surroundings := do
  let seed ← randomNumber
  let m ← now
  let milliseconds := (m.microseconds - start.microseconds) / 1000
  return {
    clock := m.clock
    duration := .ofFloat (Float.ofNat milliseconds / 1000)
    languages := Script.Syntax.languages
    stamp := stampAt m seed
    key := ← IO.getEnv "POSTMAN_API_KEY"
    reply := fun _ => .failure "no connection"
    logFile := none }

/-- Runs the program, and returns its exit code. -/
def run (texts : List String) : IO UInt32 := do
  let start ← now
  let cwd := (← IO.currentDir).toString.toList
  let paths := relevantPaths cwd (.ofTexts texts)
  let root ← paths.foldlM loadInto
    ((Entry.directory []).putAt ((Path.components cwd).map String.ofList) (.directory []))
  let disk : Disk := { root, cwd := (Path.components cwd).map String.ofList }
  let (result, progress) := (Command.run texts).runFrom (← surroundings start) ⟨disk, [], []⟩
  store "" (some root) progress.disk.root
  match result with
  | .ok answer => do
    IO.print answer.output
    IO.eprint answer.errors
    return answer.exit.toUInt32
  | .error fault => do
    IO.eprintln fault.message
    return failureCode.toUInt32

end Courier.Program

def main (texts : List String) : IO UInt32 := Courier.Program.run texts
