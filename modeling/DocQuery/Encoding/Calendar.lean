/-
  Points in time as text: milliseconds since the start of 1970 against dates of the Gregorian
  calendar, continued to the past.
-/

namespace DocQuery.Encoding

/-- Days from 1970-01-01 to a date. Years are counted from March, so that the leap day is the
last of its year. -/
def daysOfDate (year : Int) (month day : Nat) : Int :=
  let y : Int := if month ≤ 2 then year - 1 else year
  let era := y.fdiv 400
  let yearOfEra := y - era * 400
  let monthFromMarch := (month + 9) % 12
  let dayOfYear : Int := ((153 * monthFromMarch + 2) / 5 + day - 1 : Nat)
  era * 146097 + (yearOfEra * 365 + yearOfEra / 4 - yearOfEra / 100 + dayOfYear) - 719468

/-- The date so many days after 1970-01-01. -/
def dateOfDays (days : Int) : Int × Nat × Nat :=
  let z := days + 719468
  let era := z.fdiv 146097
  let doe := (z - era * 146097).toNat
  let yoe := (doe - doe / 1460 + doe / 36524 - doe / 146096) / 365
  let doy := doe - (365 * yoe + yoe / 4 - yoe / 100)
  let mp := (5 * doy + 2) / 153
  let day := doy - (153 * mp + 2) / 5 + 1
  let month := if mp < 10 then mp + 3 else mp - 9
  let year : Int := (yoe : Int) + era * 400
  (if month ≤ 2 then year + 1 else year, month, day)

def isLeapYear (year : Int) : Bool := year % 4 = 0 && (year % 100 ≠ 0 || year % 400 = 0)

def daysInMonth (year : Int) (month : Nat) : Nat :=
  if month = 2 then (if isLeapYear year then 29 else 28)
  else if month = 4 || month = 6 || month = 9 || month = 11 then 30 else 31

/-- Takes so many decimal digits off the front. -/
def takeDigits? : Nat → List Char → Option (Nat × List Char)
  | n, cs => go n 0 cs
where
  go : Nat → Nat → List Char → Option (Nat × List Char)
    | 0, acc, cs => some (acc, cs)
    | n + 1, acc, c :: cs => if c.isDigit then go n (acc * 10 + (c.toNat - 48)) cs else none
    | _ + 1, _, [] => none

/-- Takes one given character off the front. -/
def takeChar? (expected : Char) : List Char → Option (List Char)
  | c :: cs => if c = expected then some cs else none
  | [] => none

/-- A fraction of a second in nanoseconds; digits past the ninth are dropped. -/
def nanosOfDigits (digits : List Char) : Nat :=
  let nine := (digits ++ List.replicate 9 '0').take 9
  nine.foldl (fun n c => n * 10 + (c.toNat - 48)) 0

/-- The offset from universal time at the end of a text, in minutes. -/
def offsetMinutes? : List Char → Option Int
  | ['Z'] => some 0
  | ['z'] => some 0
  | c :: cs => do
    let sign : Int ← if c = '+' then some 1 else if c = '-' then some (-1) else none
    let (hour, cs) ← takeDigits? 2 cs
    let cs ← takeChar? ':' cs
    let (minute, cs) ← takeDigits? 2 cs
    if hour ≤ 23 && minute ≤ 59 && cs.isEmpty then some (sign * (hour * 60 + minute : Nat))
    else none
  | [] => none

/-- Milliseconds since the start of 1970 of a date, a separator, a time of day and an offset. The
separator is any ASCII character. A part of a millisecond is cut toward zero. The sixtieth second
is the last nanosecond of the minute, and stands only at the end of a month in universal time. -/
def millisOfTimestamp? (text : List Char) : Option Int := do
  let (year, cs) ← takeDigits? 4 text
  let cs ← takeChar? '-' cs
  let (month, cs) ← takeDigits? 2 cs
  let cs ← takeChar? '-' cs
  let (day, cs) ← takeDigits? 2 cs
  let cs ← match cs with
    | sep :: cs => if sep.toNat < 128 then some cs else none
    | [] => none
  let (hour, cs) ← takeDigits? 2 cs
  let cs ← takeChar? ':' cs
  let (minute, cs) ← takeDigits? 2 cs
  let cs ← takeChar? ':' cs
  let (second, cs) ← takeDigits? 2 cs
  let (nanos, cs) ← match cs with
    | '.' :: d :: cs =>
      if d.isDigit then
        some (nanosOfDigits (d :: cs.takeWhile Char.isDigit), cs.dropWhile Char.isDigit)
      else none
    | '.' :: [] => none
    | cs => some (0, cs)
  let offset ← offsetMinutes? cs
  let leap := second = 60
  let (second, nanos) := if leap then (59, 999999999) else (second, nanos)
  if 1 ≤ month && month ≤ 12 && 1 ≤ day && day ≤ daysInMonth year month
      && hour ≤ 23 && minute ≤ 59 && second ≤ 59 then
    let seconds : Int := daysOfDate year month day * 86400
      + (hour * 3600 + minute * 60 + second : Nat) - offset * 60
    let (_, utcMonth, _) := dateOfDays (seconds.fdiv 86400)
    let (_, nextMonth, _) := dateOfDays ((seconds + 1).fdiv 86400)
    if leap && utcMonth = nextMonth then none
    else some ((seconds * 1000000000 + nanos).tdiv 1000000)
  else none

/-- A number with leading zeros up to a width. -/
def padded (width n : Nat) : List Char :=
  let digits := Nat.toDigits 10 n
  List.replicate (width - digits.length) '0' ++ digits

/-- The text of a point in time for messages: date, time of day with at least one digit of the
second's fraction, and offset. Years of more than four digits are not dates, and show the
milliseconds. -/
def timestampText (millis : Int) : List Char :=
  let (year, month, day) := dateOfDays (millis.fdiv 86400000)
  if year < -9999 || 9999 < year then (toString millis).toList
  else
    let ofDay := (millis - millis.fdiv 86400000 * 86400000).toNat
    let ms := ofDay % 1000
    let fraction := if ms % 10 ≠ 0 then padded 3 ms
      else if ms % 100 ≠ 0 then padded 2 (ms / 10) else padded 1 (ms / 100)
    (if year < 0 then ['-'] else []) ++ padded 4 year.natAbs ++ '-' :: padded 2 month
      ++ '-' :: padded 2 day ++ ' ' :: Nat.toDigits 10 (ofDay / 3600000)
      ++ ':' :: padded 2 (ofDay / 60000 % 60) ++ ':' :: padded 2 (ofDay / 1000 % 60)
      ++ '.' :: fraction ++ " +00:00:00".toList

end DocQuery.Encoding
