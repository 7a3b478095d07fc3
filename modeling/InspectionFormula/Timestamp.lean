import InspectionFormula.Decimal
import InspectionFormula.Text.Basic

/-!
# Instants

Days are counted in the Gregorian calendar, extended to all years.  Its cycle is
400 years, and counting a year from March puts the leap day at its end.

An instant is written as a date and a time in universal time, with as many
thousandths of a second, three digits each, as it has.  It is read with any
offset from universal time, and with blanks between its parts, in a range of
years.
-/

namespace InspectionFormula

/-- An instant: seconds since the start of 1970, and nanoseconds after them.  A leap second is the
second before it with another billion of nanoseconds. -/
structure Timestamp where
  seconds : Int
  nanoseconds : Nat
deriving DecidableEq

def Timestamp.ofSeconds (seconds : Int) : Timestamp := ⟨seconds, 0⟩

/-- A date and a time of day in universal time.  The second may be the sixtieth, a leap second. -/
structure CalendarTime where
  year : Int
  month : Nat
  day : Nat
  hour : Nat
  minute : Nat
  second : Nat
  nanosecond : Nat
deriving DecidableEq

namespace CalendarTime

def isLeapYear (year : Int) : Bool := year % 4 == 0 && (year % 100 != 0 || year % 400 == 0)

def daysInMonth (year : Int) (month : Nat) : Nat :=
  match month with
  | 2 => if isLeapYear year then 29 else 28
  | 4 | 6 | 9 | 11 => 30
  | _ => 31

def isValid (time : CalendarTime) : Bool :=
  1 ≤ time.month && time.month ≤ 12 && 1 ≤ time.day &&
    time.day ≤ daysInMonth time.year time.month &&
    time.hour < 24 && time.minute < 60 && time.second ≤ 60

/-- Days from the start of 1970 to a date. -/
def daysOfDate (year : Int) (month day : Nat) : Int :=
  let shifted := if month ≤ 2 then year - 1 else year
  let yearOfCycle := shifted % 400
  let dayOfYear := (153 * ((month + 9) % 12) + 2) / 5 + day - 1
  shifted / 400 * 146097 +
    (yearOfCycle * 365 + yearOfCycle / 4 - yearOfCycle / 100 + dayOfYear) - 719468

/-- The date some days from the start of 1970. -/
def dateOfDays (days : Int) : Int × Nat × Nat :=
  let shifted := days + 719468
  let dayOfCycle := (shifted % 146097).toNat
  let yearOfCycle :=
    (dayOfCycle - dayOfCycle / 1460 + dayOfCycle / 36524 - dayOfCycle / 146096) / 365
  let dayOfYear := dayOfCycle - (365 * yearOfCycle + yearOfCycle / 4 - yearOfCycle / 100)
  let monthFromMarch := (5 * dayOfYear + 2) / 153
  let day := dayOfYear - (153 * monthFromMarch + 2) / 5 + 1
  let month := if monthFromMarch < 10 then monthFromMarch + 3 else monthFromMarch - 9
  let year := shifted / 146097 * 400 + yearOfCycle
  (if month ≤ 2 then year + 1 else year, month, day)

/-- The instant of a time.  A leap second counts as more nanoseconds of the second before. -/
def toTimestamp (time : CalendarTime) : Timestamp :=
  let leap := time.second / 60
  ⟨daysOfDate time.year time.month time.day * 86400 +
      (time.hour * 3600 + time.minute * 60 + (time.second - leap)),
    time.nanosecond + leap * Nat.pow 10 9⟩

def ofTimestamp (timestamp : Timestamp) : CalendarTime :=
  let (year, month, day) := dateOfDays (timestamp.seconds / 86400)
  let secondOfDay := (timestamp.seconds % 86400).toNat
  { year, month, day
    hour := secondOfDay / 3600
    minute := secondOfDay / 60 % 60
    second := secondOfDay % 60 + timestamp.nanoseconds / Nat.pow 10 9
    nanosecond := timestamp.nanoseconds % Nat.pow 10 9 }

end CalendarTime

namespace Timestamp

/-- A year of four digits, or with a sign if four do not suffice. -/
def yearText (year : Int) : List Char :=
  if 0 ≤ year ∧ year ≤ 9999 then Decimal.lastDigits 4 year.toNat
  else
    let digits := Nat.toDigits 10 year.natAbs
    (if year < 0 then '-' else '+') :: List.replicate (4 - digits.length) '0' ++ digits

/-- The fraction of a second in three, six or nine digits, nothing for a whole second. -/
def fractionText (nanosecond : Nat) : List Char :=
  if nanosecond = 0 then []
  else if nanosecond % Nat.pow 10 6 = 0 then '.' :: Decimal.lastDigits 3 (nanosecond / Nat.pow 10 6)
  else if nanosecond % Nat.pow 10 3 = 0 then '.' :: Decimal.lastDigits 6 (nanosecond / Nat.pow 10 3)
  else '.' :: Decimal.lastDigits 9 nanosecond

def text (timestamp : Timestamp) : String :=
  let time := CalendarTime.ofTimestamp timestamp
  let two := Decimal.lastDigits 2
  String.ofList (yearText time.year ++ '-' :: two time.month ++ '-' :: two time.day ++
    'T' :: two time.hour ++ ':' :: two time.minute ++ ':' :: two time.second ++
    fractionText time.nanosecond ++ ['Z'])

/-- A number of at most some digits after blanks, and the text after it. -/
def readNumber? (most : Nat) (text : List Char) : Option (Nat × List Char) :=
  let start := Text.trimStart text
  let digits := (start.take most).takeWhile Char.isDigit
  if digits.isEmpty then none else some (Nat.ofDigitChars 10 digits 0, start.drop digits.length)

/-- A year, with any number of digits after a sign. -/
def readYear? (text : List Char) : Option (Int × List Char) :=
  match Text.trimStart text with
  | '-' :: rest =>
      if rest.head?.any Char.isDigit then
        (readNumber? rest.length rest).map fun (year, rest) => (-(year : Int), rest)
      else none
  | '+' :: rest =>
      if rest.head?.any Char.isDigit then
        (readNumber? rest.length rest).map fun (year, rest) => ((year : Int), rest)
      else none
  | rest => (readNumber? 4 rest).map fun (year, rest) => ((year : Int), rest)

/-- The text after a mark that may follow blanks. -/
def readMark? (mark : Char) (text : List Char) : Option (List Char) :=
  match Text.trimStart text with
  | first :: rest => if first = mark then some rest else none
  | [] => none

/-- The nanoseconds of a fraction, if there is one.  Digits after the ninth do not count. -/
def readFraction? : List Char → Option (Nat × List Char)
  | '.' :: rest =>
      let digits := rest.takeWhile Char.isDigit
      if digits.isEmpty then none
      else
        let kept := digits.take 9
        some (Nat.ofDigitChars 10 kept 0 * Nat.pow 10 (9 - kept.length),
          rest.dropWhile Char.isDigit)
  | rest => some (0, rest)

def readPair? : List Char → Option (Nat × List Char)
  | tens :: ones :: rest =>
      if tens.isDigit && ones.isDigit then some (Nat.ofDigitChars 10 [tens, ones] 0, rest) else none
  | _ => none

/-- Seconds by which a place is ahead of universal time. -/
def readOffset? (text : List Char) : Option (Int × List Char) :=
  match text with
  | 'Z' :: rest | 'z' :: rest => some (0, rest)
  | sign :: rest =>
      if (text.take 3).map Char.toUpper == ['U', 'T', 'C'] then some (0, text.drop 3)
      else if sign == '+' || sign == '-' || sign == '−' then do
        let (hours, rest) ← readPair? rest
        let (minutes, rest) ←
          readPair? (rest.dropWhile fun character =>
            character == ':' || Text.isWhiteSpace character)
        if hours < 24 ∧ minutes < 60 then
          let size : Int := hours * 3600 + minutes * 60
          return (if sign == '+' then size else -size, rest)
        else none
      else none
  | [] => none

/-- Whether dates of a year are read. -/
def isYearInRange (year : Int) : Bool := -262143 ≤ year && year ≤ 262142

/-- The instant that a text is.  The year is in range both where the text was written and in
universal time. -/
def read? (text : String) : Option Timestamp := do
  let (year, rest) ← readYear? text.toList
  let (month, rest) ← readNumber? 2 (← readMark? '-' rest)
  let (day, rest) ← readNumber? 2 (← readMark? '-' rest)
  let rest ← match rest with
    | 'T' :: rest | 't' :: rest | ' ' :: rest => some rest
    | _ => none
  let (hour, rest) ← readNumber? 2 rest
  let (minute, rest) ← readNumber? 2 (← readMark? ':' rest)
  let (second, rest) ← readNumber? 2 (← readMark? ':' rest)
  let (nanosecond, rest) ← readFraction? rest
  let (offset, rest) ← readOffset? (Text.trimStart rest)
  let time : CalendarTime := { year, month, day, hour, minute, second, nanosecond }
  if time.isValid && isYearInRange year && (Text.trimStart rest).isEmpty then
    let written := time.toTimestamp
    let instant : Timestamp := { written with seconds := written.seconds - offset }
    if isYearInRange (CalendarTime.ofTimestamp instant).year then return instant else none
  else none

end Timestamp

end InspectionFormula
