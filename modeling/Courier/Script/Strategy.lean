import Courier.Log.Basic
import Courier.Script.Provider
import Courier.Script.Textual

/-!
# Choosing how to convert

A script is converted line by line, or through the syntax tree that a provider yields.  A script
whose tree cannot be had or rendered is converted line by line after all, with a warning.
-/

namespace Courier.Script

/-- How scripts are converted. -/
inductive Strategy where
  | textual
  | tree (provider : Provider)

/-- Whether scripts are converted through their syntax trees. -/
def Strategy.isTree : Strategy → Bool
  | .textual => false
  | .tree _ => true

/-- Converts a script through the syntax tree of a provider, or keeps it with the reason why that
fails. -/
def convertParsed (provider : Provider) (script : List Char) (role : Role) : Conversion :=
  convertTree script role (provider (Text.Utf8.encode script))

/-- The warning that a script was converted line by line after all. -/
def degradedWarning : String := "AST conversion failed, line based converter used instead"

/-- What is reported when a conversion through the tree fails. -/
def reportFailure (role : Role) (result : Conversion) : Logging Unit := do
  let reason := result.failure.getD ""
  let detail := result.failureDetail.getD ""
  Logging.report .debug s!"AST conversion of {role.name} script failed: {reason}"
  Logging.report .warning
    (s!"AST conversion failed for {role.name} script, falling back to line based converter. " ++
      s!"({detail})")

/-- Converts a script. -/
def convertWith (strategy : Strategy) (script : List Char) (role : Role) : Logging Conversion :=
  match strategy with
  | .textual => return Textual.convert script role
  | .tree provider => do
    let result := convertParsed provider script role
    if result.succeeded then return result
    reportFailure role result
    let fallback := Textual.convert script role
    return { fallback with warnings := fallback.warnings ++ [degradedWarning] }

end Courier.Script
