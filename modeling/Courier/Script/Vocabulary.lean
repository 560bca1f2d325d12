/-!
# The two scripting vocabularies

A request carries a script that runs before it is sent and one that tests the response.  Both are
written against the objects `bru` and `res` and the functions `test` and `expect`, and are to be
run against the object `pm`.  The tables below pair each known name with its replacement.  They are
shared by the conversion of text and the rendering of syntax trees.
-/

namespace Courier.Script

/-- When a script runs. -/
inductive Role where
  | preRequest
  | test
  deriving DecidableEq, Repr

def Role.name : Role → String
  | .preRequest => "pre-request"
  | .test => "test"

def Role.ofName? (name : String) : Option Role :=
  if name = Role.preRequest.name then some .preRequest
  else if name = Role.test.name then some .test
  else none

/-- What is said of a name that is no role. -/
def Role.refusal (name : String) : String :=
  s!"Unknown script role '{name}', expected one of ('pre-request', 'test')"

@[simp] theorem Role.ofName?_name (role : Role) : Role.ofName? role.name = some role := by
  cases role <;> rfl

/-- Methods of `bru` and the functions that replace them. -/
def variableCalls : List (String × String) := [
  ("setVar", "pm.environment.set"),
  ("getVar", "pm.environment.get"),
  ("setEnvVar", "pm.environment.set"),
  ("getEnvVar", "pm.environment.get")]

/-- What stands for a property of the response: a plain access, or a call without arguments. -/
structure ResponseAccess where
  path : String
  isCall : Bool
  deriving DecidableEq, Repr

/-- The replacement as written where a value is expected. -/
def ResponseAccess.text (access : ResponseAccess) : String :=
  if access.isCall then access.path ++ "()" else access.path

/-- Properties of `res` and the accesses that replace them. -/
def responseAccesses : List (String × ResponseAccess) := [
  ("status", ⟨"pm.response.code", false⟩),
  ("body", ⟨"pm.response.json", true⟩),
  ("getBody", ⟨"pm.response.json", false⟩),
  ("headers", ⟨"pm.response.headers", false⟩),
  ("responseTime", ⟨"pm.response.responseTime", false⟩)]

/-- Functions that are called without an object, and their replacements. -/
def bareCalls : List (String × String) := [
  ("test", "pm.test"),
  ("expect", "pm.expect")]

/-- The line put before a script that still uses names without replacement. -/
def partialMarker : String := "// WARNING: partial conversion - review manually"

/-- The warning that goes with `partialMarker`. -/
def partialWarning : String := "Script contains partial conversion - manual review required"

/-- A converted script: its lines, the warnings about it, and the reason when the conversion was
given up, in which case the lines are those of the script as it was. -/
structure Conversion where
  lines : List String
  warnings : List String
  failure : Option String
  deriving DecidableEq, Repr

def Conversion.succeeded (c : Conversion) : Bool := c.failure.isNone

/-- The reason as it is reported. -/
def Conversion.failureDetail (c : Conversion) : Option String :=
  c.failure.map fun reason => s!"AST conversion failed: {reason}"

end Courier.Script
