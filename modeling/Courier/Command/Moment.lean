import Courier.Environment.Basic

/-!
# Moments

A moment is a number of microseconds since the beginning of 1970, in universal time.  It is written
as a date and a time of day, and an identifier is written from the bits of a number.
-/

namespace Courier.Command

/-- Microseconds since the beginning of 1970. -/
structure Moment where
  microseconds : Nat
  deriving DecidableEq, Repr

/-- A day of the calendar. -/
structure Date where
  year : Nat
  month : Nat
  day : Nat
  deriving DecidableEq, Repr

/-- A number with zeros before it. -/
def padded (width n : Nat) : String :=
  let digits := (toString n).toList
  String.ofList (List.replicate (width - digits.length) '0' ++ digits)

/-- The date of a day, counted from the first of March of a year that 400 divides. -/
def Date.ofDays (days : Nat) : Date :=
  let cycle := days / 146097
  let inCycle := days % 146097
  let year := (inCycle - inCycle / 1460 + inCycle / 36524 - inCycle / 146096) / 365
  let inYear := inCycle - (365 * year + year / 4 - year / 100)
  let month := (5 * inYear + 2) / 153
  let day := inYear - (153 * month + 2) / 5 + 1
  if month < 10 then ⟨400 * cycle + year, month + 3, day⟩
  else ⟨400 * cycle + year + 1, month - 9, day⟩

def Date.text (d : Date) : String := s!"{padded 4 d.year}-{padded 2 d.month}-{padded 2 d.day}"

namespace Moment

def seconds (m : Moment) : Nat := m.microseconds / 1000000

/-- The day of a moment.  From the day on which dates are counted to the first of 1970 there are
719468 days. -/
def date (m : Moment) : Date := .ofDays (m.seconds / 86400 + 719468)

/-- The time of day in hours, minutes and seconds. -/
def timeOfDay (m : Moment) : String :=
  let s := m.seconds % 86400
  s!"{padded 2 (s / 3600)}:{padded 2 (s / 60 % 60)}:{padded 2 (s % 60)}"

/-- A moment as log files show it. -/
def clock (m : Moment) : String := s!"{m.date.text} {m.timeOfDay}"

/-- The part of a second, which is left out when there is none. -/
def fraction (m : Moment) : String :=
  let part := m.microseconds % 1000000
  if part = 0 then "" else s!".{padded 6 part}"

/-- A moment as stamps show it. -/
def text (m : Moment) : String := s!"{m.date.text}T{m.timeOfDay}{m.fraction}Z"

end Moment

/-- Hexadecimal digits of a number, from the least one on. -/
def hexDigits : Nat → Nat → List Char
  | 0, _ => []
  | count + 1, n => Nat.digitChar (n % 16) :: hexDigits count (n / 16)

/-- The random identifier that a number stands for, of version 4. -/
def identifier (n : Nat) : String :=
  let digits := hexDigits 30 n
  let variant := Nat.digitChar (8 + n / Nat.pow 16 30 % 4)
  let group (start count : Nat) : String := String.ofList ((digits.drop start).take count)
  s!"{group 0 8}-{group 8 4}-4{group 12 3}-{variant}{group 15 3}-{group 18 12}"

/-- The stamp of the environment of a number, from a random number. -/
def stampAt (m : Moment) (seed number : Nat) : Environment.Stamp :=
  ⟨identifier (seed + number), m.text⟩

end Courier.Command
