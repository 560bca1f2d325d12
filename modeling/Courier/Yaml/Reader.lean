import Courier.Yaml.Scalar

/-!
# Reading YAML

A reader of one YAML document: mappings and lists by indentation or in brackets, scalars plain or in
quotes, comments and document marks.  Tags, anchors, block scalars and keys of several lines are
refused, like everything that is no YAML.

A reader takes text off a place, which knows its column and whether only blanks stand before it on
its line.
-/

namespace Courier.Yaml

/-- A place in a document. -/
structure Place where
  rest : List Char
  column : Nat
  fresh : Bool
  deriving DecidableEq, Repr

/-- A reader of the text at a place. -/
abbrev Reader := StateT Place Option

/-! ## Characters -/

def isBreak (c : Char) : Bool :=
  c == '\n' || c == '\r' || c == '\u0085' || c == '\u2028' || c == '\u2029'

/-- The characters a document may hold. -/
def isPrintable (c : Char) : Bool :=
  let n := c.toNat
  n == 9 || n == 10 || n == 13 || (0x20 ≤ n && n ≤ 0x7E) || n == 0x85 ||
    (0xA0 ≤ n && n ≤ 0xD7FF) || (0xE000 ≤ n && n ≤ 0xFFFD) || 0x10000 ≤ n

/-- Whether a sign ends here: the text ends or goes on with a blank. -/
def endsSign (cs : List Char) : Bool :=
  match cs.head? with
  | none => true
  | some c => c == ' ' || c == '\t' || isBreak c

/-- Whether a line begins with a mark between documents. -/
def beginsMark (cs : List Char) : Bool :=
  ("---".toList.isPrefixOf cs || "...".toList.isPrefixOf cs) && endsSign (cs.drop 3)

/-- The place behind the next character. -/
def Place.next (p : Place) : Place :=
  match p.rest with
  | [] => p
  | c :: rest =>
    if isBreak c then ⟨rest, 0, true⟩ else ⟨rest, p.column + 1, p.fresh && c == ' '⟩

/-- The place `n` characters further on. -/
def Place.advance : Nat → Place → Place
  | 0, p => p
  | n + 1, p => p.next.advance n

/-- Skips blanks and comments, among as many characters as `fuel` says. -/
def Place.skipGapFrom : Nat → Place → Place
  | 0, p => p
  | fuel + 1, p =>
    match p.rest with
    | ' ' :: _ => p.next.skipGapFrom fuel
    | '#' :: _ => (p.advance (p.rest.takeWhile (!isBreak ·)).length).skipGapFrom fuel
    | c :: _ => if isBreak c then p.next.skipGapFrom fuel else p
    | [] => p

/-- The place of the next token. -/
def Place.skipGap (p : Place) : Place := p.skipGapFrom (p.rest.length + 1)

/-- Whether nothing of the document is left. -/
def Place.atEnd (p : Place) : Bool := p.rest.isEmpty || (p.column == 0 && beginsMark p.rest)

def skipGap : Reader Unit := modify Place.skipGap

/-- Takes one character. -/
def take (c : Char) : Reader Unit := do
  let p ← get
  if p.rest.head? = some c then set p.next else failure

def head? : Reader (Option Char) := return (← get).rest.head?

/-! ## Line breaks in scalars -/

/-- The blanks inside plain scalars. -/
def isSpace (c : Char) : Bool := c == ' '

/-- The blanks inside scalars in quotes. -/
def isBlank (c : Char) : Bool := c == ' ' || c == '\t'

/-- Takes the blanks that come next. -/
def takeBlanks (blank : Char → Bool) : Reader (List Char) := do
  let p ← get
  let blanks := p.rest.takeWhile blank
  set (p.advance blanks.length)
  return blanks

/-- Counts the empty lines that follow, `fuel` of them at most, and skips them. -/
def emptyLines (blank : Char → Bool) : Nat → Reader Nat
  | 0 => return 0
  | fuel + 1 => do
    let p ← get
    if p.column = 0 && beginsMark p.rest then return 0
    discard (takeBlanks blank)
    let p ← get
    if p.rest.head?.any isBreak then
      set p.next
      return (← emptyLines blank fuel) + 1
    else return 0

/-- What the blanks and breaks at a place stand for inside a scalar.  One break is a blank, and
each further one a line feed. -/
def fold (blank : Char → Bool) : Reader (List Char) := do
  let blanks ← takeBlanks blank
  let p ← get
  if p.rest.head?.any isBreak then
    set p.next
    let n ← emptyLines blank p.rest.length
    return if n = 0 then [' '] else List.replicate n '\n'
  else return blanks

/-! ## Scalars -/

/-- Signs that end a plain scalar in brackets. -/
def bracketSigns : List Char := ",[]\x7b\x7d".toList

/-- Signs no plain scalar begins with. -/
def leadingSigns : List Char := "-?:,[]\x7b\x7d#&*!|>'\"%@`".toList

/-- Whether a plain scalar ends here. -/
def endsPlain (inBrackets : Bool) : List Char → Bool
  | [] => true
  | ':' :: cs =>
    endsSign cs || (inBrackets && cs.head?.any bracketSigns.contains)
  | c :: _ =>
    c == ' ' || c == '\t' || isBreak c || (inBrackets && (c == '?' || bracketSigns.contains c))

/-- One piece of a plain scalar, without blanks. -/
def plainPiece (inBrackets : Bool) : List Char → List Char
  | [] => []
  | c :: cs => if endsPlain inBrackets (c :: cs) then [] else c :: plainPiece inBrackets cs

/-- Whether a plain scalar may begin here. -/
def beginsPlain (inBrackets : Bool) : List Char → Bool
  | [] => false
  | c :: cs =>
    if leadingSigns.contains c then
      !endsSign cs && (c == '-' || (!inBrackets && (c == '?' || c == ':')))
    else !(c == ' ' || c == '\t' || isBreak c)

/-- Further pieces of a plain scalar.  Pieces on later lines have to stand at `least` or behind it,
unless they are in brackets. -/
def plainPieces (inBrackets : Bool) (least : Nat) : Nat → Reader (List Char)
  | 0 => return []
  | fuel + 1 => do
    let p ← get
    let piece := plainPiece inBrackets p.rest
    if p.rest.head? = some '#' || piece.isEmpty then return []
    let behind := p.advance piece.length
    set behind
    let blanks ← fold isSpace
    let q ← get
    let goesOn := !blanks.isEmpty && q.rest.head? != some '#' && !q.atEnd &&
      (inBrackets || !q.fresh || q.column ≥ least)
    if !goesOn then return piece
    let more ← plainPieces inBrackets least fuel
    return if more.isEmpty then piece else piece ++ blanks ++ more

/-- A plain scalar. -/
def plain (inBrackets : Bool) (least : Nat) : Reader Json := do
  let p ← get
  if !beginsPlain inBrackets p.rest then failure
  return scalar (← plainPieces inBrackets least p.rest.length)

/-- What a character behind a backslash stands for. -/
def escapes : List (Char × Char) := [
  ('0', '\x00'), ('a', '\x07'), ('b', '\x08'), ('t', '\t'), ('\t', '\t'), ('n', '\n'),
  ('v', '\x0b'), ('f', '\x0c'), ('r', '\r'), ('e', '\x1b'), (' ', ' '), ('"', '"'), ('\\', '\\'),
  ('/', '/'), ('N', '\u0085'), ('_', '\u00a0'), ('L', '\u2028'), ('P', '\u2029')]

/-- The number of digits behind the escapes of code points. -/
def codeLengths : List (Char × Nat) := [('x', 2), ('u', 4), ('U', 8)]

/-- What a backslash stands for with what is behind it: a character or line breaks. -/
def escape : Reader (List (Option Char)) := do
  let p ← get
  match p.rest with
  | [] => failure
  | c :: cs =>
    match escapes.lookup c, codeLengths.lookup c with
    | some d, _ => set p.next; return [some d]
    | none, some n =>
      let digits := cs.take n
      if digits.length = n && digits.all (fun d => (Text.hexValue? d).isSome) then
        set (p.advance (n + 1))
        return [Json.charOf? (valueInBase 16 digits)]
      else failure
    | none, none =>
      if !isBreak c then failure
      set p.next
      let n ← emptyLines isBlank cs.length
      return List.replicate n (some '\n')

/-- The rest of a scalar in quotes. -/
def quotedFrom (quote : Char) : Nat → Reader (List (Option Char))
  | 0 => failure
  | fuel + 1 => do
    let p ← get
    match p.rest with
    | [] => failure
    | c :: cs =>
      if c = quote then
        set p.next
        if quote = '\'' && cs.head? = some '\'' then
          set p.next.next
          return some '\'' :: (← quotedFrom quote fuel)
        return []
      else if quote = '"' && c = '\\' then
        set p.next
        let first ← escape
        return first ++ (← quotedFrom quote fuel)
      else if isBlank c || isBreak c then
        let blanks ← fold isBlank
        let q ← get
        if q.column = 0 && beginsMark q.rest then failure
        return blanks.map some ++ (← quotedFrom quote fuel)
      else
        set p.next
        return some c :: (← quotedFrom quote fuel)

/-- A scalar in quotes. -/
def quoted : Reader Json := do
  match ← head? with
  | some quote =>
    if quote != '"' && quote != '\'' then failure
    take quote
    let p ← get
    return Json.ofChars (← quotedFrom quote (p.rest.length + 1))
  | none => failure

/-! ## Brackets -/

mutual

/-- A value in brackets or outside, without what may stand around it. -/
def inlineValue (inBrackets : Bool) (least : Nat) : Nat → Reader Json
  | 0 => failure
  | fuel + 1 => do
    match ← head? with
    | some '[' =>
      take '['
      return .array (← items fuel)
    | some '\x7b' =>
      take '\x7b'
      return Json.ofMembers (← members fuel)
    | some '"' | some '\'' => quoted
    | _ => plain inBrackets least

/-- The value behind a colon in brackets, which may be missing. -/
def pairValue : Nat → Reader Json
  | 0 => failure
  | fuel + 1 => do
    take ':'
    skipGap
    match ← head? with
    | some ',' | some ']' | some '\x7d' => return .null
    | _ => inlineValue true 0 fuel

/-- The items of a list in brackets and the bracket behind them. -/
def items : Nat → Reader (List Json)
  | 0 => failure
  | fuel + 1 => do
    skipGap
    if (← head?) = some ']' then
      take ']'
      return []
    let first ← inlineValue true 0 fuel
    skipGap
    let item ← if (← head?) = some ':' then do
        let value ← pairValue fuel
        match keyText first with
        | some key => pure (Json.object [(key, value)])
        | none => failure
      else pure first
    skipGap
    match ← head? with
    | some ']' =>
      take ']'
      return [item]
    | _ =>
      take ','
      return item :: (← items fuel)

/-- The members of a mapping in braces and the brace behind them. -/
def members : Nat → Reader (List (String × Json))
  | 0 => failure
  | fuel + 1 => do
    skipGap
    if (← head?) = some '\x7d' then
      take '\x7d'
      return []
    let first ← inlineValue true 0 fuel
    skipGap
    let value ← if (← head?) = some ':' then pairValue fuel else pure .null
    match keyText first with
    | none => failure
    | some key =>
      skipGap
      match ← head? with
      | some '\x7d' =>
        take '\x7d'
        return [(key, value)]
      | _ =>
        take ','
        return (key, value) :: (← members fuel)

end

/-! ## Indentation -/

/-- Whether an item of a list begins here. -/
def beginsItem : List Char → Bool
  | '-' :: cs => endsSign cs
  | _ => false

/-- Takes the colon behind a key. -/
def takeColon : Reader Unit := do
  discard (takeBlanks isSpace)
  let p ← get
  if p.rest.head? = some ':' && endsSign (p.rest.drop 1) then set p.next else failure

/-- Whether the colon of a key comes next. -/
def beginsColon : Reader Bool := do
  let p ← get
  let result ← optional takeColon
  set p
  return result.isSome

/-- Goes to the next token, which has to be the first of its line. -/
def nextLine : Reader Unit := do
  skipGap
  let p ← get
  if !(p.fresh || p.rest.isEmpty) then failure

/-- A key with its colon. -/
def key (fuel : Nat) : Reader String := do
  let before ← get
  let value ← inlineValue false (before.rest.length + 1) fuel
  let after ← get
  let taken := before.rest.take (before.rest.length - after.rest.length)
  takeColon
  if taken.any isBreak then failure
  match keyText value with
  | some text => return text
  | none => failure

mutual

/-- A value that begins a line, if the line is indented by `least` or more; otherwise nothing. -/
def block (least : Nat) : Nat → Reader Json
  | 0 => failure
  | fuel + 1 => do
    let p ← get
    if p.atEnd || p.column < least then return .null
    if beginsItem p.rest then return .array (← blockItems p.column fuel)
    let isKey := (← optional (key fuel)).isSome
    set p
    if isKey then return Json.ofMembers (← blockMembers p.column fuel)
    let value ← inlineValue false least fuel
    if ← beginsColon then failure
    return value

/-- The items of a list whose signs stand in a column. -/
def blockItems (column : Nat) : Nat → Reader (List Json)
  | 0 => failure
  | fuel + 1 => do
    take '-'
    skipGap
    let item ← block (column + 1) fuel
    nextLine
    let p ← get
    if p.atEnd || p.column < column then return [item]
    if p.column > column then failure
    if beginsItem p.rest then return item :: (← blockItems column fuel)
    return [item]

/-- The members of a mapping whose keys stand in a column. -/
def blockMembers (column : Nat) : Nat → Reader (List (String × Json))
  | 0 => failure
  | fuel + 1 => do
    let own ← key fuel
    let value ← blockValue column fuel
    nextLine
    let p ← get
    if p.atEnd || p.column < column then return [(own, value)]
    if p.column > column then failure
    return (own, value) :: (← blockMembers column fuel)

/-- The value behind the colon of a key. -/
def blockValue (column : Nat) : Nat → Reader Json
  | 0 => failure
  | fuel + 1 => do
    skipGap
    let p ← get
    if p.fresh then
      if !p.atEnd && p.column = column && beginsItem p.rest then
        return .array (← blockItems column fuel)
      block (column + 1) fuel
    else if p.rest.isEmpty then return .null
    else
      if beginsItem p.rest then failure
      let value ← inlineValue false (column + 1) fuel
      if ← beginsColon then failure
      return value

end

/-! ## Documents -/

/-- Goes over the mark at the beginning of a document. -/
def openDocument : Reader Unit := do
  skipGap
  let p ← get
  if p.column = 0 && "---".toList.isPrefixOf p.rest && endsSign (p.rest.drop 3) then
    set (p.advance 3)
    skipGap

/-- Goes over the mark at the end of a document, which has to be the last one. -/
def closeDocument : Reader Unit := do
  nextLine
  let p ← get
  if p.column = 0 && "...".toList.isPrefixOf p.rest && endsSign (p.rest.drop 3) then
    set (p.advance 3)
    skipGap
  if !(← get).rest.isEmpty then failure

/-- The value of a document. -/
def document (fuel : Nat) : Reader Json := do
  openDocument
  let p ← get
  let value ←
    if p.fresh || p.rest.isEmpty then block 0 fuel
    else do
      if beginsItem p.rest then failure
      let value ← inlineValue false 0 fuel
      if ← beginsColon then failure
      pure value
  closeDocument
  return value

/-- A document without a byte order mark. -/
def unmarked : List Char → List Char
  | '\uFEFF' :: cs => cs
  | cs => cs

/-- Reads a text that holds one document.  The nesting of values is bounded by the length. -/
def read? (text : List Char) : Option Json :=
  if text.all isPrintable then
    (document (2 * text.length + 4) ⟨unmarked text, 0, true⟩).map (·.1)
  else none

end Courier.Yaml
