/-
Dates and times.

A date has a year of four digits, a month and a day of two.  With a time behind it,
month and day may have one digit; the time is set off by a T or by blanks, may have a
fraction of a second, and may name its offset from universal time.

    2001-12-14
    2001-12-14t21:59:43.10-05:00
    2001-12-14 21:59:43 Z

A date is written back in its shortest form, and shown as data by the call that makes
it.
-/
import Scorecard.Number.Numeral

namespace Scorecard

/-- A time of day. -/
structure TimeOfDay where
  hour : Nat
  minute : Nat
  second : Nat
  microsecond : Nat
  /-- How many minutes it is ahead of universal time, where it says so. -/
  offset : Option Int
deriving DecidableEq

/-- A date, or a time on a date. -/
structure Timestamp where
  year : Nat
  month : Nat
  day : Nat
  time : Option TimeOfDay
deriving DecidableEq

namespace Timestamp

/-! ### Reading -/

/-- From `least` to `most` digits at the front of a text: how many there are, their
number, and what follows. -/
def digits? (least most : Nat) (text : List Char) : Option (Nat × Nat × List Char) :=
  let found := text.takeWhile isDigit
  if least ≤ found.length ∧ found.length ≤ most then
    some (found.length, Decimal.ofDigits found, text.drop found.length)
  else none

/-- What follows a character, if that is at the front of a text. -/
def behind? (c : Char) : List Char → Option (List Char)
  | x :: rest => if x = c then some rest else none
  | [] => none

/-- The blanks and tabs at the front of a text left out. -/
def dropGap (text : List Char) : List Char :=
  text.dropWhile fun c => c == ' ' || c == '\t'

/-- The number of microseconds that the digits of a fraction write. -/
def microseconds (digits : List Char) : Nat :=
  Decimal.ofDigits ((digits ++ List.replicate 6 '0').take 6)

/-- An offset that is a whole text, in minutes; none is given by an empty text. -/
def offset? (text : List Char) : Option (Option Int) :=
  match text, dropGap text with
  | [], _ => some none
  | _, ['Z'] => some (some 0)
  | _, sign :: rest =>
    if sign = '+' ∨ sign = '-' then do
      let (_, hours, rest) ← digits? 1 2 rest
      let minutes ←
        match rest with
        | [] => some 0
        | _ => do
          match ← digits? 2 2 (← behind? ':' rest) with
          | (_, n, []) => some n
          | _ => none
      let ahead : Int := hours * 60 + minutes
      some (some (if sign = '-' then -ahead else ahead))
    else none
  | _, [] => none

/-- A time that is a whole text, behind what sets it off. -/
def time? (text : List Char) : Option TimeOfDay := do
  let (_, hour, rest) ← digits? 1 2 text
  let (_, minute, rest) ← digits? 2 2 (← behind? ':' rest)
  let (_, second, rest) ← digits? 2 2 (← behind? ':' rest)
  let (fraction, rest) :=
    match rest with
    | '.' :: rest => (rest.takeWhile isDigit, rest.dropWhile isDigit)
    | rest => ([], rest)
  some ⟨hour, minute, second, microseconds fraction, ← offset? rest⟩

/-- The date or time that a whole text spells, possible or not. -/
def read? (text : List Char) : Option Timestamp := do
  let (_, year, rest) ← digits? 4 4 text
  let (monthWidth, month, rest) ← digits? 1 2 (← behind? '-' rest)
  let (dayWidth, day, rest) ← digits? 1 2 (← behind? '-' rest)
  match rest with
  | [] => if monthWidth = 2 ∧ dayWidth = 2 then some ⟨year, month, day, none⟩ else none
  | c :: behind =>
    if c = 'T' ∨ c = 't' then some ⟨year, month, day, ← time? behind⟩
    else if c = ' ' ∨ c = '\t' then some ⟨year, month, day, ← time? (dropGap behind)⟩
    else none

/-! ### Possible dates and times -/

/-- A year with a day more. -/
def isLeap (year : Nat) : Bool :=
  year % 4 == 0 && (year % 100 != 0 || year % 400 == 0)

/-- How many days a month has. -/
def daysOf (year month : Nat) : Nat :=
  match month with
  | 2 => if isLeap year then 29 else 28
  | 4 => 30
  | 6 => 30
  | 9 => 30
  | 11 => 30
  | _ => 31

/-- The minutes of a day, which no offset reaches. -/
def minutesOfDay : Nat := 24 * 60

/-- There is such a time of day. -/
def isTime (t : TimeOfDay) : Bool :=
  t.hour < 24 && t.minute < 60 && t.second < 60 && t.offset.all (·.natAbs < minutesOfDay)

/-- There is such a date, and such a time on it. -/
def isPossible (t : Timestamp) : Bool :=
  1 ≤ t.year && 1 ≤ t.month && t.month ≤ 12 && 1 ≤ t.day && t.day ≤ daysOf t.year t.month &&
    t.time.all isTime

/-! ### Sameness -/

/-- How many days come before a year, from the year zero on. -/
def daysBeforeYear (year : Nat) : Nat :=
  let past := year - 1
  past * 365 + past / 4 - past / 100 + past / 400

/-- How many days come before a date, from the year zero on. -/
def daysBefore (t : Timestamp) : Nat :=
  (List.range (t.month - 1)).foldl (fun days m => days + daysOf t.year (m + 1)) (daysBeforeYear t.year) +
    t.day

/-- The microseconds in universal time before a time on a day that comes behind so
many others. -/
def instant (days : Nat) (t : TimeOfDay) : Int :=
  let minutes : Int := ((days * 24 + t.hour) * 60 + t.minute : Nat) - t.offset.getD 0
  (minutes * 60 + t.second) * 1000000 + t.microsecond

/-- The same date, or the same moment.  Times that name their offsets are compared in
universal time, and differ from all that do not. -/
def same (s t : Timestamp) : Bool :=
  match s.time, t.time with
  | some a, some b =>
    if a.offset.isSome && b.offset.isSome then instant s.daysBefore a == instant t.daysBefore b
    else s == t
  | _, _ => s == t

/-! ### Writing -/

/-- A number with zeros in front up to a width. -/
def padded (width n : Nat) : String :=
  let digits := Decimal.digitsOf n
  String.ofList (List.replicate (width - digits.length) '0' ++ digits)

/-- An offset as text. -/
def offsetText (offset : Int) : String :=
  let sign := if offset < 0 then "-" else "+"
  sign ++ padded 2 (offset.natAbs / 60) ++ ":" ++ padded 2 (offset.natAbs % 60)

/-- A time of day as text; a fraction is left out if it is zero. -/
def timeText (t : TimeOfDay) : String :=
  padded 2 t.hour ++ ":" ++ padded 2 t.minute ++ ":" ++ padded 2 t.second ++
    (if t.microsecond = 0 then "" else "." ++ padded 6 t.microsecond) ++
    (t.offset.map offsetText).getD ""

/-- A date or time as text. -/
def text (t : Timestamp) : String :=
  padded 4 t.year ++ "-" ++ padded 2 t.month ++ "-" ++ padded 2 t.day ++
    (t.time.map fun time => " " ++ timeText time).getD ""

/-- Numbers with commas between them. -/
def listed (numbers : List Nat) : String :=
  ", ".intercalate (numbers.map fun n => String.ofList (Decimal.digitsOf n))

/-- The time of day as data: microseconds are left out if they are zero, and then so
are seconds. -/
def timeNumbers (t : TimeOfDay) : List Nat :=
  if t.microsecond ≠ 0 then [t.hour, t.minute, t.second, t.microsecond]
  else if t.second ≠ 0 then [t.hour, t.minute, t.second]
  else [t.hour, t.minute]

/-- An offset as data: a whole number of days, never more than it, and seconds. -/
def offsetLiteral (offset : Int) : String :=
  if offset = 0 then "datetime.timezone.utc"
  else
    let days := if offset < 0 then "days=-1, " else ""
    let seconds := (if offset < 0 then offset + minutesOfDay else offset).toNat * 60
    s!"datetime.timezone(datetime.timedelta({days}seconds={seconds}))"

/-- A date or time as data. -/
def literal (t : Timestamp) : String :=
  let date := [t.year, t.month, t.day]
  match t.time with
  | none => s!"datetime.date({listed date})"
  | some time =>
    let numbers := listed (date ++ timeNumbers time)
    let offset := (time.offset.map fun n => ", tzinfo=" ++ offsetLiteral n).getD ""
    s!"datetime.datetime({numbers}{offset})"

end Timestamp

end Scorecard
