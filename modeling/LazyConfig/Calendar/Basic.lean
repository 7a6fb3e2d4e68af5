/-!
# Dates and times of day

Dates of the Gregorian calendar in the years 1 to 9999, and dates with a time of day to the
microsecond, which may have an offset from universal time of less than a day.
-/

namespace LazyConfig.Calendar

structure Date where
  year : Nat
  month : Nat
  day : Nat
deriving DecidableEq, Repr, Inhabited

def isLeapYear (year : Nat) : Bool := year % 4 = 0 && (year % 100 ≠ 0 || year % 400 = 0)

def daysInMonth (year : Nat) : Nat → Nat
  | 2 => if isLeapYear year then 29 else 28
  | 4 | 6 | 9 | 11 => 30
  | _ => 31

namespace Date

/-- Whether the fields name a day of the calendar. -/
def Valid (d : Date) : Prop :=
  1 ≤ d.year ∧ d.year ≤ 9999 ∧ 1 ≤ d.month ∧ d.month ≤ 12 ∧ 1 ≤ d.day ∧
    d.day ≤ daysInMonth d.year d.month

instance (d : Date) : Decidable d.Valid := by unfold Valid; infer_instance

/-- How many days of the calendar come before the date. -/
def ordinal (d : Date) : Nat :=
  let years := d.year - 1
  let months := (List.range (d.month - 1)).foldl
    (fun days m => days + daysInMonth d.year (m + 1)) 0
  years * 365 + years / 4 - years / 100 + years / 400 + months + (d.day - 1)

end Date

/-- A date with a time of day; the offset is in microseconds, towards the east. -/
structure DateTime where
  date : Date
  hour : Nat := 0
  minute : Nat := 0
  second : Nat := 0
  microsecond : Nat := 0
  offset : Option Int := none
deriving DecidableEq, Repr, Inhabited

def microsecondsPerDay : Nat := 86400000000

namespace DateTime

def Valid (t : DateTime) : Prop :=
  t.date.Valid ∧ t.hour < 24 ∧ t.minute < 60 ∧ t.second < 60 ∧ t.microsecond < 1000000 ∧
    ∀ offset ∈ t.offset, offset.natAbs < microsecondsPerDay

instance (t : DateTime) : Decidable t.Valid := by unfold Valid; infer_instance

/-- The microseconds since the start of the calendar, by the clock at hand. -/
def clock (t : DateTime) : Nat :=
  t.date.ordinal * microsecondsPerDay +
    ((t.hour * 60 + t.minute) * 60 + t.second) * 1000000 + t.microsecond

/-- The microseconds since the start of the calendar, in universal time where that is known. -/
def instant (t : DateTime) : Int := t.clock - t.offset.getD 0

/-- Two times are equal if both are offset and the same instant, or both are not and agree. -/
def equal (a b : DateTime) : Bool :=
  a.offset.isSome = b.offset.isSome && a.instant = b.instant

/-- Times compare only if both are offset or both are not. -/
def compare? (a b : DateTime) : Option Ordering :=
  if a.offset.isSome = b.offset.isSome then some (compare a.instant b.instant) else none

end DateTime

end LazyConfig.Calendar
