import Courier.Text.Digit
import Courier.Text.Lines

/-!
# The words of a command line

A word is an option, the mark after which there are no more options, or a plain word.  An option is
named in full or, when its name is long, by a beginning that no other name shares.  Its value is the
next word or is attached to it; options of one letter that take no value can be written together.

`readWords` reads the words of a command with options and one plain word as its operand.  It stops
at the first mistake, or at an option that ends the reading.  Words that have no place are only
noted, since a later option may still end the reading.
-/

namespace Courier.Command

/-- An option of a command, by all its names. -/
structure OptionForm (κ : Type) where
  key : κ
  names : List String
  takesValue : Bool

/-- Why reading stops: because of a mistake, or at an option that ends it. -/
inductive Stop (κ : Type) where
  | mistake
  | at (key : κ)
  deriving DecidableEq, Repr

/-- What is attached to the name of an option, behind an equals sign or not. -/
structure Attached where
  behindEquals : Bool
  text : List Char
  deriving DecidableEq, Repr

/-- An option as it is written: by a name of one letter or not, and with what is attached. -/
structure Spelling (κ : Type) where
  form : OptionForm κ
  isShort : Bool
  attached : Option Attached

inductive Word (κ : Type) where
  | mark
  | plain (text : String)
  | option (spelling : Spelling κ)
  | unknown

variable {κ : Type}

/-! ## Single words -/

/-- A name of one letter has one dash. -/
def isShortName (name : List Char) : Bool := name[1]? != some '-'

/-- The option of a name. -/
def formOf? (forms : List (OptionForm κ)) (name : List Char) : Option (OptionForm κ) :=
  forms.find? fun f => f.names.contains (String.ofList name)

/-- The options whose long names begin with the text before an equals sign. -/
def longCandidates (forms : List (OptionForm κ)) (word : List Char) : List (Spelling κ) :=
  let (start, value) := Text.cutAt '=' word
  forms.flatMap fun f =>
    (f.names.filter fun name => start.isPrefixOf name.toList).map fun _ =>
      ⟨f, false, value.map (⟨true, ·⟩)⟩

/-- The options whose name is the first letter of the word. -/
def shortCandidates (forms : List (OptionForm κ)) (word : List Char) : List (Spelling κ) :=
  ((formOf? forms (word.take 2)).map fun f => ⟨f, true, some ⟨false, word.drop 2⟩⟩).toList

/-- A number below zero is a plain word. -/
def isNegativeNumber (word : List Char) : Bool :=
  let isDigits (cs : List Char) : Bool := cs.all Text.isDecimal
  let number := if word.getLast? = some '\n' then word.dropLast else word
  match number with
  | '-' :: cs =>
    match Text.cutAt '.' cs with
    | (whole, none) => !whole.isEmpty && isDigits whole
    | (whole, some rest) => isDigits whole && !rest.isEmpty && isDigits rest
  | _ => false

/-- A word that is no name of an option in full. -/
def readAbbreviated (forms : List (OptionForm κ)) (word : List Char) :
    Except (Stop κ) (Word κ) :=
  let candidates :=
    if isShortName word then shortCandidates forms word else longCandidates forms word
  match candidates with
  | [spelling] => .ok (.option spelling)
  | _ :: _ :: _ => .error .mistake
  | [] =>
    if isNegativeNumber word || word.contains ' ' then .ok (.plain (String.ofList word))
    else .ok .unknown

/-- Reads one word before the mark. -/
def readWord (forms : List (OptionForm κ)) (text : String) : Except (Stop κ) (Word κ) :=
  let word := text.toList
  if word.head? ≠ some '-' ∨ word.length = 1 then .ok (.plain text)
  else match formOf? forms word with
    | some f => .ok (.option ⟨f, isShortName word, none⟩)
    | none =>
      let (name, attached) := Text.cutAt '=' word
      match attached, formOf? forms name with
      | some value, some f => .ok (.option ⟨f, isShortName name, some ⟨true, value⟩⟩)
      | _, _ => readAbbreviated forms word

/-- What each text of a command line is.  Behind the mark all words are plain. -/
def classify (forms : List (OptionForm κ)) : List String → Except (Stop κ) (List (Word κ))
  | [] => .ok []
  | text :: rest =>
    if text = "--" then .ok (.mark :: rest.map .plain)
    else do
      let word ← readWord forms text
      return word :: (← classify forms rest)

/-! ## Options with values -/

/-- Options with the values they are given. -/
abbrev Given (κ : Type) := List (κ × Option String)

/-- Options written together, the one at their end that still takes a value, and whether letters
behind them name no option. -/
structure Cluster (κ : Type) where
  given : Given κ
  open? : Option κ
  isStray : Bool

/-- The cluster of one option without anything attached. -/
def Cluster.single (f : OptionForm κ) : Cluster κ :=
  if f.takesValue then ⟨[], some f.key, false⟩ else ⟨[(f.key, none)], none, false⟩

/-- A cluster with an option without value before it. -/
def Cluster.after (f : OptionForm κ) (c : Cluster κ) : Cluster κ :=
  { c with given := (f.key, none) :: c.given }

/-- The cluster of an option with the text attached to it, which is its value or, when it has one
letter, the letters of further options. -/
def Cluster.ofAttached (forms : List (OptionForm κ)) (f : OptionForm κ)
    (isShort behindEquals : Bool) : List Char → Option (Cluster κ)
  | [] => if f.takesValue then some ⟨[(f.key, some "")], none, false⟩ else none
  | c :: rest =>
    if f.takesValue then some ⟨[(f.key, some (String.ofList (c :: rest)))], none, false⟩
    else if !isShort || behindEquals || c == '-' then none
    else match formOf? forms ['-', c] with
      | none => some ⟨[(f.key, none)], none, true⟩
      | some next =>
        match rest with
        | [] => some ((single next).after f)
        | '=' :: value => (ofAttached forms next true true value).map (·.after f)
        | letter :: more => (ofAttached forms next true false (letter :: more)).map (·.after f)

/-- The cluster that an option is written as. -/
def Spelling.cluster (forms : List (OptionForm κ)) (s : Spelling κ) : Except (Stop κ) (Cluster κ) :=
  match s.attached with
  | none => .ok (.single s.form)
  | some attached =>
    match Cluster.ofAttached forms s.form s.isShort attached.behindEquals attached.text with
    | some cluster => .ok cluster
    | none => .error .mistake

/-! ## Whole commands -/

/-- What has been read of a command. -/
structure Reading (κ : Type) where
  given : Given κ
  operand : Option String
  /-- Whether there are words without a place. -/
  isStray : Bool

/-- The options of a command, those among them that end its reading, and what is read of it. -/
structure Grammar (κ : Type) where
  forms : List (OptionForm κ)
  ends : κ → Bool

/-- Takes the options of a cluster in order up to one that ends the reading. -/
def Grammar.take (g : Grammar κ) (r : Reading κ) (cluster : Cluster κ) :
    Except (Stop κ) (Reading κ) :=
  match cluster.given.find? fun (key, _) => g.ends key with
  | some (key, _) => .error (.at key)
  | none => .ok { r with
      given := r.given ++ cluster.given
      isStray := r.isStray || cluster.isStray }

/-- Gives a value to the option at the end of a cluster. -/
def Cluster.close (key : κ) (value : String) (cluster : Cluster κ) : Cluster κ :=
  { cluster with given := cluster.given ++ [(key, some value)], open? := none }

/-- Takes a plain word as the operand, unless there is one already. -/
def Reading.takePlain (r : Reading κ) (text : String) : Reading κ :=
  match r.operand with
  | none => { r with operand := some text }
  | some _ => { r with isStray := true }

def Reading.stray (r : Reading κ) : Reading κ := { r with isStray := true }

/-- Reads words.  The mark has its place next to the operand only. -/
def Grammar.readWords (g : Grammar κ) : List (Word κ) → Reading κ → Except (Stop κ) (Reading κ)
  | [], r => .ok r
  | .plain text :: .mark :: rest, r =>
    g.readWords rest (if r.operand.isNone then r.takePlain text else r.stray)
  | .plain text :: rest, r => g.readWords rest (r.takePlain text)
  | .mark :: .plain text :: rest, r =>
    g.readWords rest (if r.operand.isNone then r.takePlain text else r.stray)
  | .mark :: rest, r => g.readWords rest r.stray
  | .unknown :: rest, r => g.readWords rest r.stray
  | .option spelling :: .plain text :: rest, r => do
    let cluster ← spelling.cluster g.forms
    match cluster.open? with
    | some key =>
      let r ← g.take r (cluster.close key text)
      g.readWords rest r
    | none =>
      let r ← g.take r cluster
      g.readWords (.plain text :: rest) r
  | .option spelling :: rest, r => do
    let cluster ← spelling.cluster g.forms
    if cluster.open?.isSome then throw .mistake
    let r ← g.take r cluster
    g.readWords rest r

/-- Reads the words of a command. -/
def Grammar.read (g : Grammar κ) (texts : List String) : Except (Stop κ) (Reading κ) := do
  g.readWords (← classify g.forms texts) ⟨[], none, false⟩

/-- The last value of an option. -/
def Reading.value? [DecidableEq κ] (r : Reading κ) (key : κ) : Option String :=
  (r.given.reverse.lookup key).join

/-- Whether an option is given. -/
def Reading.has [DecidableEq κ] (r : Reading κ) (key : κ) : Bool :=
  (r.given.lookup key).isSome

end Courier.Command
