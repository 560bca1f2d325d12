import Courier.Collection.Convert
import Courier.Environment.Basic
import Courier.Json.Printer

/-!
# Jobs

A job works on a disk, reports entries and sends calls, and may end in a fault; what it has done by
then stays done.  What it is told from outside are its surroundings: the time, the languages of
scripts, the stamps for what it writes, the key for uploads and the replies to its calls.  A log
file gets each entry when it is reported.  `Job.runFrom` runs a job, and `runFrom_bind` says how one
job follows another.
-/

namespace Courier

/-- What a job is told from outside. -/
structure Surroundings where
  /-- The time that the lines of a log file begin with. -/
  clock : String
  /-- The seconds that a batch takes. -/
  duration : Decimal.Double
  /-- The languages in which scripts are parsed. -/
  languages : List Script.Language
  /-- The stamp of each environment, by its number. -/
  stamp : Nat → Environment.Stamp
  /-- The key for uploads. -/
  key : Option String
  /-- What a call is answered with. -/
  reply : Call → Reply
  /-- The path of the log file. -/
  logFile : Option Path.Chars

/-- What a job has done. -/
structure Progress where
  disk : Disk
  entries : List Log.Entry
  calls : List Call

/-- A computation that makes progress and may end in a fault. -/
abbrev Job := ReaderT Surroundings (ExceptT Fault (StateM Progress))

namespace Job

/-- Runs a job from some progress on. -/
def runFrom {α : Type} (job : Job α) (s : Surroundings) (p : Progress) :
    Except Fault α × Progress :=
  (((job.run s).run).run p).run

/-- A job goes on where the one before it stopped, unless that ended in a fault. -/
theorem runFrom_bind {α β : Type} (job : Job α) (next : α → Job β) (s : Surroundings)
    (p : Progress) :
    runFrom (job >>= next) s p =
      match runFrom job s p with
      | (.ok a, q) => runFrom (next a) s q
      | (.error fault, q) => (.error fault, q) := by
  simp only [runFrom, bind, ReaderT.bind, ReaderT.run, ExceptT.bind, ExceptT.run, ExceptT.mk,
    StateT.bind, StateT.run]
  rcases job s p with ⟨result, q⟩
  cases result <;> rfl

def disk : Job Disk := return (← get).disk

def surroundings : Job Surroundings := read

/-- The result of something that may fail. -/
def ofExcept {α ε : Type} (fault : ε → Fault) (result : Except ε α) : Job α :=
  match result with
  | .ok a => return a
  | .error e => throw (fault e)

/-- Works on the disk, whose changes stay after a fault. -/
def onDisk {α ε : Type} (fault : ε → Fault) (work : Disk → Except ε α × Disk) : Job α := do
  let p ← get
  let (result, disk) := work p.disk
  set { p with disk }
  ofExcept fault result

/-! ## Reporting -/

/-- A disk after entries have been added to the end of a log file.  How much of an entry can be
written makes no difference to the next one. -/
def appendEntries (clock : String) (file : Path.Chars) (entries : List Log.Entry) (d : Disk) :
    Disk :=
  (Log.fileTexts clock entries).foldl
    (fun d text => d.append file (Text.Utf8.encode text.toList)) d

/-- Reports entries in order. -/
def reportEntries (entries : List Log.Entry) : Job Unit := do
  let s ← surroundings
  modify fun p => { p with
    entries := p.entries ++ entries
    disk := match s.logFile with
      | some file => appendEntries s.clock file entries p.disk
      | none => p.disk }

def report (level : Log.Level) (text : String) : Job Unit := reportEntries [⟨level, text⟩]

/-- Reports texts at one level, in order. -/
def reportAll (level : Log.Level) (texts : List String) : Job Unit :=
  reportEntries (texts.map fun text => ⟨level, text⟩)

/-- Runs a conversion, with its entries. -/
def ofConverting {α : Type} (c : Converting α) : Job α := do
  let (result, entries) := (c.run.run []).run
  reportEntries entries
  ofExcept id result

/-- The fault that a job ends in, if it is one to be expected. -/
def attempt {α : Type} (job : Job α) : Job (Except Fault α) :=
  tryCatch (Except.ok <$> job) fun fault =>
    if fault.isExpected then return .error fault else throw fault

/-- Opens a file to which entries are to be added. -/
def openLogFile (file : Path.Chars) (d : Disk) : Except SystemFault Unit × Disk :=
  match d.openFile file true with
  | .error fault => (.error fault, d)
  | .ok (_, opened) => (.ok (), opened)

/-- Opens a log file for a job, and makes the directories above it.  Entries are added to what the
file holds. -/
def withLogFile {α : Type} (path : Option String) (job : Job α) : Job α :=
  match path.filter (· ≠ "") with
  | none => job
  | some path => do
    let d ← disk
    let file := Path.absolute d.cwdPath path.toList
    onDisk .system (Disk.makeParents file)
    onDisk .system (openLogFile file)
    withReader ({ · with logFile := some file }) do
      report .debug s!"Log file: {path}"
      job

/-! ## Files -/

/-- The text of a file. -/
def readText (path : String) : Job (List Char) := do ofExcept .ofFile ((← disk).readText path)

/-- Writes a text as a file. -/
def writeText (path : String) (text : List Char) : Job Unit :=
  onDisk .ofFile (Disk.writeText path text)

/-- Writes a value as a file. -/
def writeJson (path : String) (value : Json) : Job Unit :=
  writeText path (Json.print Json.fileLayout value).toList

/-- Reads the request of a document. -/
def readRequest (path : String) : Job Request := do
  ofConverting (Request.parse (← readText path))

end Job

end Courier
