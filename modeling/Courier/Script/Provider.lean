import Courier.Script.Rendering

/-!
# Where syntax trees come from

Conversions through a tree take it from a provider.  The provider of a list of languages lets each
of them parse the script in turn and takes the first tree that holds no syntax error; when there is
none, it says what is wrong in each language.  Nothing here depends on how a language parses.
-/

namespace Courier.Script

/-- What yields the syntax tree of a script, or the reason why there is none. -/
abbrev Provider := Source → Except String Tree

/-- A language for scripts.  Its parser marks what is wrong with a script in the tree. -/
structure Language where
  name : String
  parse : Source → Tree

namespace Language

/-- Whether a script has no syntax error in a language. -/
def accepts (l : Language) (source : Source) : Bool := !(l.parse source).label.hasError

/-- What is wrong with a script in a language. -/
def problem (l : Language) (source : Source) : String :=
  s!"{l.name}: {describeSyntaxError (l.parse source)}"

end Language

/-- The reason why a script has no tree in any of some languages. -/
def unparsedReason (languages : List Language) (source : Source) : String :=
  let problems := "; ".intercalate (languages.map (·.problem source))
  s!"Script could not be parsed ({problems})"

/-- The provider that tries languages in turn. -/
def Provider.ofLanguages (languages : List Language) : Provider := fun source =>
  match languages.find? (·.accepts source) with
  | some language => .ok (language.parse source)
  | none => .error (unparsedReason languages source)

end Courier.Script
