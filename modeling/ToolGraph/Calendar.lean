/-! Dates and times of day in the calendar that is in use, from the year 1 to the year 9999. -/
namespace ToolGraph

def isLeapYear (year : Nat) : Bool :=
  year % 4 == 0 && (year % 100 != 0 || year % 400 == 0)

def daysInMonth (year month : Nat) : Nat :=
  if month = 2 then (if isLeapYear year then 29 else 28)
  else if month = 4 ∨ month = 6 ∨ month = 9 ∨ month = 11 then 30
  else 31

structure Date where
  year : Nat
  month : Nat
  day : Nat
  deriving DecidableEq, Repr

/-- A date and a time of day, with its distance from universal time in minutes if it is known. -/
structure DateTime where
  date : Date
  hour : Nat
  minute : Nat
  second : Nat
  microsecond : Nat
  offset : Option Int
  deriving DecidableEq, Repr

namespace Date

def isValid (date : Date) : Bool :=
  decide (1 ≤ date.year) && decide (date.year ≤ 9999) && decide (1 ≤ date.month) &&
    decide (date.month ≤ 12) && decide (1 ≤ date.day) &&
    decide (date.day ≤ daysInMonth date.year date.month)

end Date

def paddedNumber (width value : Nat) : String :=
  let digits := (toString value).toList
  String.ofList (List.replicate (width - digits.length) '0' ++ digits)

def Date.toText (date : Date) : String :=
  paddedNumber 4 date.year ++ "-" ++ paddedNumber 2 date.month ++ "-" ++ paddedNumber 2 date.day

namespace DateTime

def isValid (time : DateTime) : Bool :=
  time.date.isValid && decide (time.hour < 24) && decide (time.minute < 60) &&
    decide (time.second < 60) && decide (time.microsecond < 1000000) &&
    time.offset.all (fun offset => decide (-1440 < offset) && decide (offset < 1440))

/-- The time of day; microseconds are left out where there are none. -/
def clockText (time : DateTime) : String :=
  paddedNumber 2 time.hour ++ ":" ++ paddedNumber 2 time.minute ++ ":" ++
    paddedNumber 2 time.second ++
    (if time.microsecond = 0 then "" else "." ++ paddedNumber 6 time.microsecond)

/-- An offset as signed hours and minutes. -/
def offsetText (offset : Int) : String :=
  (if offset < 0 then "-" else "+") ++ paddedNumber 2 (offset.natAbs / 60) ++ ":" ++
    paddedNumber 2 (offset.natAbs % 60)

def toText (time : DateTime) : String :=
  time.date.toText ++ " " ++ time.clockText ++ (time.offset.map offsetText).getD ""

/-- The form for data exchange, with `T` between the parts and `Z` for universal time. -/
def toExchangeText (time : DateTime) : String :=
  time.date.toText ++ "T" ++ time.clockText ++
    (match time.offset with
    | none => ""
    | some offset => if offset = 0 then "Z" else offsetText offset)

def daysBeforeYear (year : Nat) : Nat :=
  (year - 1) * 365 + (year - 1) / 4 - (year - 1) / 100 + (year - 1) / 400

def daysBeforeMonth (year : Nat) : (month : Nat) → Nat
  | 0 | 1 => 0
  | month + 2 => daysBeforeMonth year (month + 1) + daysInMonth year (month + 1)

def instant (time : DateTime) : Int :=
  let days := daysBeforeYear time.date.year + daysBeforeMonth time.date.year time.date.month +
    (time.date.day - 1)
  let minutes : Int := (days * 24 + time.hour) * 60 + time.minute - time.offset.getD 0
  (minutes * 60 + time.second) * 1000000 + time.microsecond

def same (left right : DateTime) : Bool :=
  left.offset.isSome == right.offset.isSome && left.instant == right.instant

end DateTime
end ToolGraph
