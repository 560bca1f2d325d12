import Courier.Script.Vocabulary
import Courier.Text.Blank
import Courier.Text.Lines
import Courier.Text.Word

/-!
# Converting scripts line by line

Scripts are converted as plain text, one line at a time, by a table of substitutions.  A
substitution replaces a word sequence such as `bru.setVar` wherever it is not part of a longer name
or of a longer chain of accesses; its `Ending` says what has to follow.  This never fails.  A line
that still uses `bru` afterwards, comments and string literals apart, is reported.

A line is scanned once per substitution.  The scan keeps the characters before the current one in
reverse, because a substitution looks at what stands before it.
-/

namespace Courier.Script.Textual

open Courier.Text (isBlank isWord trim splitOn)

/-- What has to follow the words of a substitution. -/
inductive Ending where
  /-- The last word ends here. -/
  | wordEnd
  /-- The last word ends here and is not called. -/
  | notCalled
  /-- Empty parentheses follow, which are replaced too. -/
  | emptyCall
  /-- An opening parenthesis follows. -/
  | called
  deriving DecidableEq, Repr

/-- Replaces `words` by `target`. -/
structure Substitution where
  words : List Char
  ending : Ending
  target : List Char
  /-- Whether it is for test scripts only. -/
  testOnly : Bool
  /-- Whether it leaves the name in a function declaration alone. -/
  sparesDeclared : Bool
  deriving DecidableEq, Repr

/-- Characters that join what follows them to a name or an access before it. -/
def joins (c : Char) : Bool := isWord c || c == '$' || c == '.'

/-- Whether the characters before a place, in reverse, let a new name begin there. -/
def beginsName : List Char → Bool
  | [] => true
  | c :: _ => !joins c

/-- Whether a word ends before these characters. -/
def endsWord : List Char → Bool
  | [] => true
  | c :: _ => !isWord c

/-- Whether an opening parenthesis follows, blank characters before it or not. -/
def opensCall (rest : List Char) : Bool := (rest.dropWhile isBlank).head? == some '('

/-- The number of further characters an ending replaces, or `none` where it does not fit. -/
def Ending.length? (e : Ending) (rest : List Char) : Option Nat :=
  match e with
  | .wordEnd => if endsWord rest then some 0 else none
  | .notCalled => if endsWord rest && !opensCall rest then some 0 else none
  | .emptyCall =>
    match rest with
    | '(' :: inner =>
      if (inner.dropWhile isBlank).head? = some ')' then
        some ((inner.takeWhile isBlank).length + 2)
      else none
    | _ => none
  | .called => if opensCall rest then some 0 else none

/-- The word that declares a function, with its space, in reverse. -/
def declaringWord : List Char := "function ".toList.reverse

/-- How many characters a substitution replaces at a place, given the characters before it in
reverse and those from it on. -/
def Substitution.length? (s : Substitution) (before rest : List Char) : Option Nat :=
  if !beginsName before then none
  else if s.sparesDeclared && declaringWord.isPrefixOf before then none
  else if !s.words.isPrefixOf rest then none
  else (s.ending.length? (rest.drop s.words.length)).map (s.words.length + ·)

/-- Applies a substitution from a place on.  The next `skip` characters have been replaced
already. -/
def Substitution.applyFrom (s : Substitution) (before : List Char) (skip : Nat) :
    List Char → List Char
  | [] => []
  | c :: rest =>
    match skip with
    | n + 1 => s.applyFrom (c :: before) n rest
    | 0 =>
      match s.length? before (c :: rest) with
      | some n => s.target ++ s.applyFrom (c :: before) (n - 1) rest
      | none => c :: s.applyFrom (c :: before) 0 rest

/-- Replaces all occurrences in a line. -/
def Substitution.apply (s : Substitution) (line : List Char) : List Char := s.applyFrom [] 0 line

/-- The substitutions in the order in which they are applied. -/
def substitutions : List Substitution :=
  variableCalls.map (fun (name, target) =>
    ⟨("bru." ++ name).toList, .wordEnd, target.toList, false, false⟩) ++
  [⟨"res.getBody".toList, .emptyCall, "pm.response.json()".toList, true, false⟩] ++
  (responseAccesses.filter (·.1 ≠ "getBody")).map (fun (name, access) =>
    ⟨("res." ++ name).toList, .notCalled, access.text.toList, true, false⟩) ++
  bareCalls.map (fun (name, target) => ⟨name.toList, .called, target.toList, false, true⟩)

/-- The substitutions for scripts of a role. -/
def substitutionsFor (role : Role) : List Substitution :=
  substitutions.filter fun s => role = .test || !s.testOnly

/-- Converts one line. -/
def convertLine (role : Role) (line : List Char) : List Char :=
  (substitutionsFor role).foldl (fun line s => s.apply line) line

/-! ## Uses without replacement -/

/-- The number of characters of a string literal after its opening quote, or `none` when it is not
closed.  A backslash protects the next character, unless that ends the line. -/
def literalLength? (quote : Char) : List Char → Option Nat
  | [] => none
  | '\\' :: c :: rest => if c = '\n' then none else (literalLength? quote rest).map (· + 2)
  | c :: rest =>
    if c = quote then some 1
    else if c = '\\' then none
    else (literalLength? quote rest).map (· + 1)

def isQuote (c : Char) : Bool := c == '"' || c == '\'' || c.toNat == 96

/-- Empties the string literals of a line.  The next `skip` characters belong to a literal. -/
def emptyLiteralsFrom (skip : Nat) : List Char → List Char
  | [] => []
  | c :: rest =>
    match skip with
    | n + 1 => emptyLiteralsFrom n rest
    | 0 =>
      match if isQuote c then literalLength? c rest else none with
      | some n => '"' :: '"' :: emptyLiteralsFrom n rest
      | none => c :: emptyLiteralsFrom 0 rest

/-- Empties the string literals of a line. -/
def emptyLiterals (line : List Char) : List Char := emptyLiteralsFrom 0 line

/-- The part of a line before its first pair of slashes. -/
def beforeComment : List Char → List Char
  | [] => []
  | '/' :: '/' :: _ => []
  | c :: rest => c :: beforeComment rest

/-- Whether a line is a comment or the inside of one. -/
def isCommentLine (line : List Char) : Bool :=
  match trim line with
  | '/' :: '/' :: _ => true
  | '/' :: '*' :: _ => true
  | '*' :: _ => true
  | _ => false

/-- A character that may begin the name of a method. -/
def startsName (c : Char) : Bool := c.isAlpha || c == '_' || c == '$'

/-- Whether a method of `bru` is used at a place or after it. -/
def usesBru (before : List Char) : List Char → Bool
  | [] => false
  | c :: rest =>
    (beginsName before && "bru.".toList.isPrefixOf (c :: rest) &&
      ((rest.drop 3).head?.any startsName)) || usesBru (c :: before) rest

/-- Whether a line uses a method of `bru`, comments and string literals apart. -/
def hasUnmappedCall (line : List Char) : Bool :=
  !isCommentLine line && usesBru [] (beforeComment (emptyLiterals line))

/-- Converts a script line by line. -/
def convert (script : List Char) (role : Role) : Conversion :=
  let lines := (splitOn '\n' script).map (convertLine role)
  let texts := lines.map String.ofList
  if lines.any hasUnmappedCall then ⟨partialMarker :: texts, [partialWarning], none⟩
  else ⟨texts, [], none⟩

end Courier.Script.Textual
