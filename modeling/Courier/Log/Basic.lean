import Courier.Text.Lines

/-!
# Logs

What is reported on the way is a list of entries, each with a level.  Levels are numbers, of which
five have names; `Level.name` names them all.  A computation that reports entries is a `Logging`
computation: it adds its entries after those that are there.

`console` and `fileLine` write an entry.  On a console the text is coloured by its level and, for
plain information, by what it is about.
-/

namespace Courier

namespace Log

/-- How much an entry matters. -/
structure Level where
  number : Int
  deriving DecidableEq, Repr

namespace Level

def debug : Level := ⟨10⟩

def info : Level := ⟨20⟩

def warning : Level := ⟨30⟩

def error : Level := ⟨40⟩

def critical : Level := ⟨50⟩

def name (level : Level) : String :=
  if level = debug then "DEBUG"
  else if level = info then "INFO"
  else if level = warning then "WARNING"
  else if level = error then "ERROR"
  else if level = critical then "CRITICAL"
  else if level.number = 0 then "NOTSET"
  else s!"Level {level.number}"

end Level

structure Entry where
  level : Level
  text : String
  deriving DecidableEq, Repr

/-! ## Writing entries -/

/-- The escape sequences of a terminal. -/
inductive Colour where
  | grey
  | cyan
  | green
  | yellow
  | red
  | bold
  | reset
  deriving DecidableEq, Repr

def Colour.code : Colour → String
  | .grey => "\x1b[90m"
  | .cyan => "\x1b[96m"
  | .green => "\x1b[92m"
  | .yellow => "\x1b[93m"
  | .red => "\x1b[91m"
  | .bold => "\x1b[1m"
  | .reset => "\x1b[0m"

/-- A text in a colour. -/
def Colour.paint (c : Colour) (text : String) : String := c.code ++ text ++ Colour.reset.code

/-- The beginnings of information that get a colour. -/
def highlights : List (String × Colour) := [
  ("Conversion successful", .green),
  ("Conversion completed", .green),
  ("Converted environment", .green),
  ("Upload successful", .green),
  ("Uploading", .cyan),
  ("Converting collection", .bold),
  ("Batch Conversion Report", .bold),
  ("Summary:", .bold),
  ("---", .bold)]

/-- The colour of an information. -/
def highlight? (text : String) : Option Colour :=
  (highlights.find? fun (start, _) => start.toList.isPrefixOf text.toList).map (·.2)

/-- An entry as it appears on a console. -/
def Entry.console (e : Entry) : String :=
  if e.level = .debug then Colour.grey.paint s!"DEBUG: {e.text}"
  else if e.level = .info then
    match highlight? e.text with
    | some c => c.paint e.text
    | none => e.text
  else if e.level = .warning then Colour.yellow.paint s!"WARNING: {e.text}"
  else if e.level = .error then Colour.red.paint s!"ERROR: {e.text}"
  else if e.level = .critical then
    Colour.bold.code ++ Colour.red.paint s!"CRITICAL: {e.text}"
  else e.text

/-- An entry as a line of a log file. -/
def Entry.fileLine (time : String) (e : Entry) : String := s!"{time} - {e.level.name} - {e.text}"

/-! ## Reporting -/

/-- Entries below this level are not reported at all. -/
def threshold : Level := .debug

/-- The levels from which on a console shows entries. -/
def consoleLevel (verbose : Bool) : Level := if verbose then .debug else .info

/-- The entries that reach a handler of a level. -/
def visibleFrom (level : Level) (entries : List Entry) : List Entry :=
  entries.filter fun e => threshold.number ≤ e.level.number && level.number ≤ e.level.number

/-- What a console shows of entries. -/
def consoleText (verbose : Bool) (entries : List Entry) : String :=
  String.join ((visibleFrom (consoleLevel verbose) entries).map fun e => e.console ++ "\n")

/-- The texts that a log file gets, one after another, of entries reported at a time. -/
def fileTexts (time : String) (entries : List Entry) : List String :=
  (visibleFrom .debug entries).map fun e => e.fileLine time ++ "\n"

end Log

/-- A computation that reports entries. -/
abbrev Logging := StateM (List Log.Entry)

namespace Logging

/-- Reports an entry. -/
def report (level : Log.Level) (text : String) : Logging Unit :=
  modify fun entries => entries ++ [⟨level, text⟩]

/-- Reports texts at one level, in order. -/
def reportAll (level : Log.Level) (texts : List String) : Logging Unit :=
  modify fun entries => entries ++ texts.map fun text => ⟨level, text⟩

end Logging

end Courier
