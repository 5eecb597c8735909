/-!
# Calendar dates

Seconds since the beginning of 1970 are shown as a date and time of day in the proleptic Gregorian
calendar, by the clocks of a zone.  The calendar reaches from the year -262143 to the year 262142.
-/

namespace CodeGauge.Calendar

/-- A day of the calendar. -/
structure Day where
  /-- The year; the year 0 precedes the year 1. -/
  year : Int
  month : Nat
  day : Nat
  deriving Repr, DecidableEq

def daySeconds : Int := 86400

def cycleDays : Int := 146097

/-- Days from the first of March of the year 0 to the beginning of 1970. -/
def epochDays : Int := 719468

/-- The day that is a number of days after the beginning of 1970.  Years are counted from March, so
that a leap day is the last day of its year. -/
def Day.ofEpoch (days : Int) : Day :=
  let shifted := days + epochDays
  let cycle := shifted.fdiv cycleDays
  let inCycle := (shifted.fmod cycleDays).toNat
  let year := (inCycle - inCycle / 1460 + inCycle / 36524 - inCycle / 146096) / 365
  let inYear := inCycle - (365 * year + year / 4 - year / 100)
  let month := (5 * inYear + 2) / 153
  let day := inYear - (153 * month + 2) / 5 + 1
  if month < 10 then ⟨cycle * 400 + year, month + 3, day⟩
  else ⟨cycle * 400 + year + 1, month - 9, day⟩

def firstYear : Int := -262143

def lastYear : Int := 262142

/-- Whether a time lies in a year of the calendar, seen from the prime meridian. -/
def inRange (seconds : Int) : Bool :=
  let year := (Day.ofEpoch (seconds.fdiv daySeconds)).year
  firstYear ≤ year && year ≤ lastYear

def padded (width n : Nat) : List Char :=
  let digits := Nat.toDigits 10 n
  List.replicate (width - digits.length) '0' ++ digits

/-- A year with at least four digits, and with a sign outside 0 to 9999. -/
def yearText (year : Int) : List Char :=
  if year < 0 then '-' :: padded 4 year.natAbs
  else if year ≤ 9999 then padded 4 year.natAbs
  else '+' :: padded 4 year.natAbs

def Day.text (date : Day) : List Char :=
  yearText date.year ++ '-' :: padded 2 date.month ++ '-' :: padded 2 date.day

def clockText (second : Nat) : List Char :=
  padded 2 (second / 3600) ++ ':' :: padded 2 (second / 60 % 60) ++ ':' :: padded 2 (second % 60)

/-- A time in a zone that is a number of seconds ahead of the prime meridian. -/
def text (offset seconds : Int) : List Char :=
  let shown := seconds + offset
  (Day.ofEpoch (shown.fdiv daySeconds)).text ++ ' ' :: clockText (shown.fmod daySeconds).toNat

/-- A zone: how far its clocks are ahead of the prime meridian at each time, in seconds. -/
structure Zone where
  offsetAt : Int → Int

def Zone.fixed (offset : Int) : Zone := ⟨fun _ => offset⟩

/-- A time in a zone, if it lies in the calendar. -/
def format? (zone : Zone) (seconds : Int) : Option String :=
  if inRange seconds then some (String.ofList (text (zone.offsetAt seconds) seconds)) else none

end CodeGauge.Calendar
