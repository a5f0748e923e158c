import Groundwork.Decimal.Reading
import Groundwork.Text.Blank

/-!
# Instants

Points of time in Coordinated Universal Time, to the nanosecond, with their texts.  An instant is written as
date and time with a letter between them and another at the end; fractions of a second take three, six or
nine digits, as few as are needed.

Reading is more lenient: blanks may stand before each number, a blank may separate date and time, and an
offset from universal time may be given.  A sixty-first second is kept as a fraction beyond one second.

The calendar is the proleptic Gregorian one, counted in eras of 400 years that begin on the first of March.
-/

namespace Groundwork

/-- A point of time: seconds since the beginning of 1970, and nanoseconds; these reach a second and more
within an inserted second. -/
structure Instant where
  seconds : Int
  nanos : Nat
  deriving DecidableEq, Repr, Inhabited

namespace Instant

/-- The beginning of 1970. -/
def epoch : Instant := ⟨0, 0⟩

/-- Whether one instant comes before another. -/
def lt (a b : Instant) : Bool := a.seconds < b.seconds || (a.seconds = b.seconds && a.nanos < b.nanos)

/-- The instant some seconds later. -/
def addSeconds (a : Instant) (n : Int) : Instant := { a with seconds := a.seconds + n }

/-! ### The calendar -/

/-- The number of days from the beginning of 1970 to a date. -/
def daysOfDate (year : Int) (month day : Nat) : Int :=
  let y := if month ≤ 2 then year - 1 else year
  let era := y.fdiv 400
  let yearOfEra := y - era * 400
  let shifted : Int := if 2 < month then month - 3 else month + 9
  let dayOfYear := (153 * shifted + 2) / 5 + (day : Int) - 1
  let dayOfEra := yearOfEra * 365 + yearOfEra / 4 - yearOfEra / 100 + dayOfYear
  era * 146097 + dayOfEra - 719468

/-- The date that lies so many days after the beginning of 1970. -/
def dateOfDays (days : Int) : Int × Nat × Nat :=
  let z := days + 719468
  let era := z.fdiv 146097
  let dayOfEra := z - era * 146097
  let yearOfEra := (dayOfEra - dayOfEra / 1460 + dayOfEra / 36524 - dayOfEra / 146096) / 365
  let dayOfYear := dayOfEra - (365 * yearOfEra + yearOfEra / 4 - yearOfEra / 100)
  let shifted := (5 * dayOfYear + 2) / 153
  let day := dayOfYear - (153 * shifted + 2) / 5 + 1
  let month := if shifted < 10 then shifted + 3 else shifted - 9
  let year := yearOfEra + era * 400 + (if month ≤ 2 then 1 else 0)
  (year, month.toNat, day.toNat)

/-- Whether a year has a leap day. -/
def isLeap (year : Int) : Bool :=
  year.fmod 4 = 0 && (year.fmod 100 ≠ 0 || year.fmod 400 = 0)

/-- The number of days of a month. -/
def daysInMonth (year : Int) (month : Nat) : Nat :=
  if month = 2 then (if isLeap year then 29 else 28)
  else if month = 4 ∨ month = 6 ∨ month = 9 ∨ month = 11 then 30
  else 31

/-! ### Writing -/

/-- A number with zeros in front, at least so many digits in all. -/
def padded (width n : Nat) : List Char :=
  let digits := Nat.toDigits 10 n
  List.replicate (width - digits.length) '0' ++ digits

/-- A year: four digits, or a sign and at least five. -/
def yearText (y : Int) : List Char :=
  if 0 ≤ y ∧ y ≤ 9999 then padded 4 y.toNat
  else (if y < 0 then '-' else '+') :: padded (if y < 0 then 4 else 5) y.natAbs

/-- The fraction of a second. -/
def fractionText (nanos : Nat) : List Char :=
  if nanos = 0 then []
  else if nanos % 1000000 = 0 then '.' :: padded 3 (nanos / 1000000)
  else if nanos % 1000 = 0 then '.' :: padded 6 (nanos / 1000)
  else '.' :: padded 9 nanos

/-- The date. -/
def dateText (t : Instant) : List Char :=
  let (y, m, d) := dateOfDays (t.seconds.fdiv 86400)
  yearText y ++ '-' :: padded 2 m ++ '-' :: padded 2 d

/-- The time of day, to the second. -/
def clockText (t : Instant) : List Char :=
  let s := (t.seconds.fmod 86400).toNat
  let second := s % 60 + t.nanos / 1000000000
  padded 2 (s / 3600) ++ ':' :: padded 2 (s / 60 % 60) ++ ':' :: padded 2 second

/-- The text of an instant with the given end. -/
def renderWith (finish : List Char) (t : Instant) : String :=
  String.ofList (t.dateText ++ 'T' :: t.clockText ++ fractionText (t.nanos % 1000000000) ++ finish)

/-- The text of an instant. -/
def render (t : Instant) : String := t.renderWith ['Z']

/-- The text of an instant for people. -/
def renderPlain (t : Instant) : String :=
  String.ofList (t.dateText ++ ' ' :: t.clockText ++ fractionText (t.nanos % 1000000000)) ++ " UTC"

/-- The date and the time of day, to the minute. -/
def renderMinute (t : Instant) : String := String.ofList (t.dateText ++ ' ' :: t.clockText.take 5)

/-! ### Reading -/

/-- A number of one to `width` digits after any blanks. -/
def takeNumber (width : Nat) (cs : List Char) : Option (Nat × List Char) :=
  let cs := Text.trimStart cs
  let digits := (cs.take width).takeWhile Char.isDigit
  if digits.isEmpty then none else some (Decimal.digitsValue digits, cs.drop digits.length)

/-- A mark after any blanks. -/
def takeMark (mark : Char) (cs : List Char) : Option (List Char) :=
  match Text.trimStart cs with
  | c :: cs => if c = mark then some cs else none
  | [] => none

/-- A year: up to four digits, or any number of them after a sign. -/
def takeYear (cs : List Char) : Option (Int × List Char) :=
  match Text.trimStart cs with
  | '-' :: cs => if cs.head?.any Char.isDigit then (takeNumber cs.length cs).map fun p => (-p.1, p.2) else none
  | '+' :: cs => if cs.head?.any Char.isDigit then (takeNumber cs.length cs).map fun p => (p.1, p.2) else none
  | cs => (takeNumber 4 cs).map fun p => (p.1, p.2)

/-- A fraction of a second in nanoseconds; digits beyond the ninth are ignored. -/
def takeFraction : List Char → Option (Nat × List Char)
  | '.' :: cs =>
      let digits := cs.takeWhile Char.isDigit
      if digits.isEmpty then none
      else
        let kept := digits.take 9
        some (Decimal.digitsValue kept * Nat.pow 10 (9 - kept.length), cs.drop digits.length)
  | cs => some (0, cs)

/-- Two digits. -/
def takeTwo : List Char → Option (Nat × List Char)
  | a :: b :: cs =>
      if a.isDigit && b.isDigit then some (Decimal.digitsValue [a, b], cs) else none
  | _ => none

/-- An offset from universal time, in seconds. -/
def takeOffset (cs : List Char) : Option (Int × List Char) :=
  match cs with
  | 'Z' :: cs => some (0, cs)
  | 'z' :: cs => some (0, cs)
  | sign :: rest =>
      if (cs.take 3).map Char.toUpper = ['U', 'T', 'C'] then some (0, cs.drop 3)
      else if sign = '+' ∨ sign = '-' ∨ sign = '−' then do
        let (hours, rest) ← takeTwo rest
        let rest := rest.dropWhile fun c => c = ':' || Text.isBlank c
        let (minutes, rest) ← takeTwo rest
        if 60 ≤ minutes ∨ 24 ≤ hours then none
        else
          let size : Int := hours * 3600 + minutes * 60
          some (if sign = '+' then size else -size, rest)
      else none
  | [] => none

/-- Reads an instant. -/
def parse? (s : String) : Option Instant := do
  let (year, cs) ← takeYear s.toList
  let cs ← takeMark '-' cs
  let (month, cs) ← takeNumber 2 cs
  let cs ← takeMark '-' cs
  let (day, cs) ← takeNumber 2 cs
  let cs ← match cs with
    | c :: cs => if c = 'T' ∨ c = 't' ∨ c = ' ' then some cs else none
    | [] => none
  let (hour, cs) ← takeNumber 2 cs
  let cs ← takeMark ':' cs
  let (minute, cs) ← takeNumber 2 cs
  let cs ← takeMark ':' cs
  let (second, cs) ← takeNumber 2 cs
  let (nanos, cs) ← takeFraction cs
  let (offset, cs) ← takeOffset (Text.trimStart cs)
  if (Text.trimStart cs).isEmpty && 1 ≤ month && month ≤ 12 && 1 ≤ day && day ≤ daysInMonth year month
      && hour < 24 && minute < 60 && second ≤ 60 && -262143 ≤ year && year ≤ 262142 then
    let extra := if second = 60 then 1000000000 else 0
    let whole := if second = 60 then 59 else second
    some ⟨daysOfDate year month day * 86400 + (hour * 3600 + minute * 60 + whole : Nat) - offset, nanos + extra⟩
  else none

end Instant

end Groundwork
