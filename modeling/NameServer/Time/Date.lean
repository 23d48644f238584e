/-!
# Dates

Dates of the Gregorian calendar from the year 0 on, extended to before its
introduction, and the number of days since 0000-01-01.
-/

namespace NameServer

structure Date where
  year : Nat
  month : Nat
  day : Nat
  deriving DecidableEq, Repr

namespace Date

def isLeapYear (year : Nat) : Bool := year % 4 = 0 && (year % 100 ≠ 0 || year % 400 = 0)

def monthLengths (year : Nat) : List Nat :=
  [31, if isLeapYear year then 29 else 28, 31, 30, 31, 30, 31, 31, 30, 31, 30, 31]

def exists? (date : Date) : Bool :=
  match date.month with
  | 0 => false
  | month + 1 => (monthLengths date.year)[month]?.any fun length =>
    1 ≤ date.day && date.day ≤ length

/-! ## Days -/

/-- Days from 0000-01-01 to the first day of a year. -/
def yearStart (year : Nat) : Nat :=
  365 * year + (year + 3) / 4 - (year + 99) / 100 + (year + 399) / 400

/-- Days from the first day of a year to the first day of a month. -/
def monthStart (year month : Nat) : Nat :=
  ((monthLengths year).take (month - 1)).foldr (· + ·) 0

def toDays (date : Date) : Nat :=
  yearStart date.year + monthStart date.year date.month + (date.day - 1)

/-- The year that a day is in: 400 years have 146097 days, and the guess that this gives is off
by one at most. -/
def yearOfDay (days : Nat) : Nat :=
  let guess := 400 * days / 146097
  if days < yearStart guess then guess - 1
  else if days < yearStart (guess + 1) then guess
  else guess + 1

/-- Month and day, from the number of the first month, the lengths of the months, and the days
before. -/
def locate (month : Nat) : List Nat → Nat → Nat × Nat
  | [], days => (month, days + 1)
  | length :: lengths, days =>
    if days < length then (month, days + 1) else locate (month + 1) lengths (days - length)

def ofDays (days : Nat) : Date :=
  let year := yearOfDay days
  let (month, day) := locate 1 (monthLengths year) (days - yearStart year)
  { year, month, day }

end Date

end NameServer
