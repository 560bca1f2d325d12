import Courier.Script.Provider
import Courier.Script.Syntax.Program

/-!
# Languages of scripts

The two languages that a program converts scripts in: plain scripts, and scripts with notation for
types.  The grammar of this library says only whether a script parses, so a script that does not is
one syntax error from its first character to its last.
-/

namespace Courier.Script.Syntax

/-- The tree of a script that does not parse. -/
def brokenTree (source : Source) : Tree :=
  .node { kind := .error, span := ⟨0, source.length⟩, hasError := true } []

/-- Parses a script in one dialect. -/
def treeIn (typed : Bool) (source : Source) : Tree :=
  match Text.Utf8.decode source with
  | .ok script => (parseIn? typed script).getD (brokenTree source)
  | .error _ => brokenTree source

/-- The languages to try, in order. -/
def languages : List Language := [⟨"javascript", treeIn false⟩, ⟨"typescript", treeIn true⟩]

end Courier.Script.Syntax
