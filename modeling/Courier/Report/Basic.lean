import Courier.Collection.Tree
import Courier.Decimal.Places

/-!
# Reports of batches

What came of converting a whole directory, as a value, as JSON and as plain text.  Rates are given
in per cent with one decimal place, times in seconds with two.
-/

namespace Courier

open Decimal (Double)

/-- What came of a batch. -/
structure Report where
  total : Nat
  failures : List Failure
  duration : Double
  warnings : List String
  outputPath : String
  environments : List String
  deriving DecidableEq, Repr

namespace Report

/-- The number of files that were converted. -/
def converted (r : Report) : Int := r.total - r.failures.length

/-- The share of converted files in per cent, as the number of files says. -/
def rate (converted : Int) (total : Nat) : Json :=
  if total = 0 then .int 0
  else .real (.ofFloat (Float.ofInt converted / Float.ofNat total * 100))

def toJson (r : Report) : Json :=
  .object [
    ("total_files", .int r.total),
    ("success_count", .int r.converted),
    ("failure_count", .int r.failures.length),
    ("duration", .real r.duration),
    ("errors", .array (r.failures.map Failure.toJson)),
    ("warnings", Json.strings r.warnings),
    ("output_path", .string r.outputPath),
    ("environments", Json.strings r.environments),
    ("success_rate", rate r.converted r.total)]

/-! ## Plain text -/

/-- An entry of the plain text about a file. -/
structure Remark where
  path : String
  message : String
  suggestion : Option String
  deriving DecidableEq, Repr

/-- What the plain text says. -/
structure Summary where
  total : Int
  converted : Int
  failed : Int
  rate : Double
  duration : Double
  remarks : List Remark
  deriving DecidableEq, Repr

/-- A number of the report as a floating-point number. -/
def double : Json → Double
  | .real x => x
  | .int n => .ofInt n
  | _ => .ofInt 0

def summary (r : Report) : Summary :=
  { total := r.total
    converted := r.converted
    failed := r.failures.length
    rate := double (rate r.converted r.total)
    duration := r.duration
    remarks := r.failures.map fun f => ⟨f.path, f.message, some f.kind.suggestion⟩ }

/-- The share that is left of a hundred per cent. -/
def restOf (rate : Double) : Double := .ofFloat (100 - rate.toFloat)

/-- The lines about one file.  An empty suggestion is left out. -/
def remarkLines (index : Nat) (m : Remark) : List String :=
  [s!"  {index}. {m.path}", s!"     {m.message}"] ++
    match m.suggestion with
    | some suggestion => if suggestion = "" then [] else [s!"     Suggestion: {suggestion}"]
    | none => []

def remarksFrom (index : Nat) : List Remark → List String
  | [] => []
  | m :: rest => remarkLines index m ++ remarksFrom (index + 1) rest

/-- The lines of the plain text. -/
def Summary.lines (s : Summary) : List String :=
  ["Batch Conversion Report",
    "=======================",
    "",
    "Summary:",
    s!"  Total files: {s.total}",
    s!"  Successful: {s.converted} ({Decimal.fixed 1 s.rate}%)",
    s!"  Failed: {s.failed} ({Decimal.fixed 1 (restOf s.rate)}%)",
    s!"  Duration: {Decimal.fixed 2 s.duration}s"] ++
  if s.remarks.isEmpty then [] else ["", "Errors:"] ++ remarksFrom 1 s.remarks

def Summary.text (s : Summary) : String := String.intercalate "\n" s.lines

end Report

end Courier
