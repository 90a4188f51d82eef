import HeatWatch.Decimal.Whole
import HeatWatch.Text.Blank

/-!
# Points in time

A point in time on the UTC time line, in seconds since 1970 and nanoseconds. Reading follows
RFC 3339 leniently: numbers may be short, white space may stand before numbers and separators,
the date and the time may be separated by a space, and the fraction may have any number of digits,
of which nine count. A sixtieth second is kept as the 59th with more than a billion nanoseconds.
-/

namespace HeatWatch

open Decimal (Digit Digits.value Digits.text Digits.ofNat)

/-- A point in time; `nanos` of a billion and more stand for a leap second. -/
structure Timestamp where
  seconds : Int
  nanos : Nat
  deriving DecidableEq, Repr

namespace Timestamp

/-- Why a text is no point in time. -/
inductive Refusal where
  | outOfRange
  | invalid
  | tooShort
  | tooLong
  | impossible
  deriving DecidableEq, Repr

def Refusal.message : Refusal → String
  | .outOfRange => "input is out of range"
  | .invalid => "input contains invalid characters"
  | .tooShort => "premature end of input"
  | .tooLong => "trailing input"
  | .impossible => "no possible date and time matching input"

/-! ## Calendar -/

def isLeap (year : Int) : Bool := year % 4 = 0 && (year % 100 ≠ 0 || year % 400 = 0)

def daysInMonth (year : Int) (month : Nat) : Nat :=
  match month with
  | 2 => if isLeap year then 29 else 28
  | 4 | 6 | 9 | 11 => 30
  | _ => 31

/-- Days from the first of March of year 0 to the first of March of a year. -/
def daysToYear (year : Int) : Int := 365 * year + year / 4 - year / 100 + year / 400

/-- Days from the first of March to the first of a month, March being month 0. -/
def daysToMonth (month : Nat) : Nat := (153 * month + 2) / 5

/-- The day number of 1970-01-01, counted from 0000-03-01. -/
def epochDay : Int := 719468

/-- Days from 1970-01-01 to a date. Years start in March here, so the leap day is their last. -/
def dayNumber (year : Int) (month day : Nat) : Int :=
  let y := if month ≤ 2 then year - 1 else year
  daysToYear y + daysToMonth ((month + 9) % 12) + (day - 1) - epochDay

/-- A date of the calendar. -/
structure Date where
  year : Int
  month : Nat
  day : Nat
  deriving DecidableEq, Repr

/-- The date of a day number. A cycle of 400 years has 146097 days. -/
def Date.ofDayNumber (n : Int) : Date :=
  let z := n + epochDay
  let cycle := z / 146097
  let d := z - cycle * 146097
  let y := (d - d / 1460 + d / 36524 - d / 146096) / 365
  let inYear := (d - (365 * y + y / 4 - y / 100)).toNat
  let m := (5 * inYear + 2) / 153
  let month := if m < 10 then m + 3 else m - 9
  let year := y + cycle * 400
  ⟨if month ≤ 2 then year + 1 else year, month, inYear - daysToMonth m + 1⟩

/-- Years that can be held. -/
def yearInRange (year : Int) : Bool := -262143 ≤ year && year ≤ 262142

/-! ## Reading -/

/-- Reads one to `most` digits. -/
def number (most : Option Nat) (cs : List Char) : Except Refusal (Nat × List Char) :=
  let cap := most.getD cs.length
  let digits := (Decimal.Digits.takeFrom (cs.take cap)).1
  if cs.isEmpty then .error .tooShort
  else if digits.isEmpty then .error .invalid
  else
    let v := Digits.value digits
    if v < 0x8000000000000000 then .ok (v, cs.drop digits.length) else .error .outOfRange

/-- Reads a number of one or two digits after white space, between two bounds. -/
def field (low high : Nat) (cs : List Char) : Except Refusal (Nat × List Char) := do
  let (n, cs) ← number (some 2) (Text.trimStart cs)
  if low ≤ n ∧ n ≤ high then .ok (n, cs) else .error .outOfRange

/-- Reads a separator after white space. -/
def separator (c : Char) (cs : List Char) : Except Refusal (List Char) :=
  match Text.trimStart cs with
  | [] => .error .tooShort
  | d :: ds => if d = c then .ok ds else .error .invalid

/-- Reads a year: up to four digits, or any number of them after a sign. -/
def year (cs : List Char) : Except Refusal (Int × List Char) := do
  let signed : Except Refusal (Int × List Char) :=
    match Text.trimStart cs with
    | '-' :: ds => (fun r => (-(r.1 : Int), r.2)) <$> number none ds
    | '+' :: ds => (fun r => ((r.1 : Int), r.2)) <$> number none ds
    | ds => (fun r => ((r.1 : Int), r.2)) <$> number (some 4) ds
  let (y, cs) ← signed
  if -0x80000000 ≤ y ∧ y < 0x80000000 then .ok (y, cs) else .error .outOfRange

/-- Reads the nanoseconds after a point; there are none without a point. -/
def fraction (cs : List Char) : Except Refusal (Nat × List Char) :=
  match cs with
  | '.' :: ds => do
    let (v, rest) ← number (some 9) ds
    let read := ds.length - rest.length
    .ok (v * Nat.pow 10 (9 - read), (Decimal.Digits.takeFrom rest).2)
  | _ => .ok (0, cs)

/-- Reads two digits. -/
def twoDigits (cs : List Char) : Except Refusal (Digit × Digit × List Char) :=
  match cs with
  | [] => .error .tooShort
  | [c] => .error (if c.toNat < 128 then .tooShort else .invalid)
  | c :: d :: rest =>
    match Decimal.Digit.ofChar? c, Decimal.Digit.ofChar? d with
    | some a, some b => .ok (a, b, rest)
    | _, _ => .error .invalid

/-- Reads the offset from UTC in seconds: `Z`, `UTC`, or a sign, hours and minutes. -/
def offset (cs : List Char) : Except Refusal (Int × List Char) :=
  if (cs.take 3).map Char.toUpper = ['U', 'T', 'C'] then .ok (0, cs.drop 3)
  else
    match cs with
    | [] => .error .tooShort
    | c :: rest =>
      if c = 'Z' ∨ c = 'z' then .ok (0, rest)
      else if c = '+' ∨ c = '-' ∨ c = '\u2212' then do
        let (h, h', rest) ← twoDigits rest
        let rest := rest.dropWhile fun c => c == ':' || Text.isBlank c
        let (m, m', rest) ← twoDigits rest
        if m.val ≥ 6 then .error .outOfRange
        else
          let seconds : Int := (10 * h.val + h'.val) * 3600 + (10 * m.val + m'.val) * 60
          .ok (if c = '+' then seconds else -seconds, rest)
      else .error .invalid

/-- Seconds of a day. -/
def daySeconds : Int := 86400

/-- Reads a point in time. -/
def parse (text : String) : Except Refusal Timestamp := do
  let (y, cs) ← year text.toList
  let cs ← separator '-' cs
  let (mo, cs) ← field 1 12 cs
  let cs ← separator '-' cs
  let (d, cs) ← field 1 31 cs
  let cs ←
    match cs with
    | [] => .error .tooShort
    | c :: cs => if c = 'T' ∨ c = 't' ∨ c = ' ' then .ok cs else .error .invalid
  let (h, cs) ← field 0 23 cs
  let cs ← separator ':' cs
  let (mi, cs) ← field 0 59 cs
  let cs ← separator ':' cs
  let (s, cs) ← field 0 60 cs
  let (nanos, cs) ← fraction cs
  let (east, cs) ← offset (Text.trimStart cs)
  if ¬ (Text.trimStart cs).isEmpty then .error .tooLong
  else if ¬ yearInRange y ∨ d > daysInMonth y mo then .error .outOfRange
  else if east.natAbs ≥ daySeconds.natAbs then .error .outOfRange
  else
    let second := if s = 60 then 59 else s
    let seconds := dayNumber y mo d * daySeconds + (h * 3600 + mi * 60 + second : Nat) - east
    if yearInRange (Date.ofDayNumber (seconds / daySeconds)).year then
      .ok ⟨seconds, if s = 60 then nanos + 1000000000 else nanos⟩
    else .error .impossible

/-! ## Printing -/

/-- A number with zeros in front up to a width. -/
def padded (width n : Nat) : List Char :=
  let cs := Decimal.Whole.ofNat n
  List.replicate (width - cs.length) '0' ++ cs

/-- A year has four digits, and a sign outside of 0 to 9999. -/
def yearText (y : Int) : List Char :=
  if 0 ≤ y ∧ y ≤ 9999 then padded 4 y.toNat
  else (if y < 0 then '-' else '+') :: padded 4 y.natAbs

/-- A fraction of a second in 0, 3, 6 or 9 digits, the fewest that keep it. -/
def fractionText (nanos : Nat) : List Char :=
  if nanos = 0 then []
  else if nanos % 1000000 = 0 then '.' :: padded 3 (nanos / 1000000)
  else if nanos % 1000 = 0 then '.' :: padded 6 (nanos / 1000)
  else '.' :: padded 9 nanos

/-- The text of a point in time in UTC. -/
def print (t : Timestamp) : String :=
  let date := Date.ofDayNumber (t.seconds / daySeconds)
  let s := (t.seconds % daySeconds).toNat
  let leap := t.nanos / 1000000000
  String.ofList (yearText date.year ++ '-' :: padded 2 date.month ++ '-' :: padded 2 date.day
    ++ 'T' :: padded 2 (s / 3600) ++ ':' :: padded 2 (s / 60 % 60)
    ++ ':' :: padded 2 (s % 60 + leap) ++ fractionText (t.nanos % 1000000000) ++ ['Z'])

end Timestamp

end HeatWatch
