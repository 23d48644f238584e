import NameServer.Text.Digits
import NameServer.Time.Date

/-!
# Timestamps

A date and time of day in the years 0 to 9999 at an offset from UTC in whole
minutes, as RFC 3339 writes them. The clock counts nanoseconds of local time
from the start of the year 0; moments are compared in UTC.
-/

namespace NameServer

/-- Nanoseconds in a second. -/
def perSecond : Nat := 1000000000

/-- Nanoseconds in the years 0 to 9999. -/
def clockLimit : Nat := 3652425 * 86400 * perSecond

/-- What RFC 3339 can express, which is all that events and state files carry: years 0 to 9999, and offsets in whole
minutes. -/
structure Timestamp where
  clock : Nat
  /-- Minutes that local time is ahead of UTC. -/
  offset : Int
  clock_lt : clock < clockLimit
  offset_gt : -1440 < offset
  offset_lt : offset < 1440
  deriving DecidableEq, Repr

namespace Timestamp

def ofClock? (clock : Nat) (offset : Int) : Option Timestamp :=
  if h : clock < clockLimit ∧ -1440 < offset ∧ offset < 1440 then
    some ⟨clock, offset, h.1, h.2.1, h.2.2⟩
  else none

/-- Nanoseconds of UTC since the start of the year 0. -/
def moment (t : Timestamp) : Int := t.clock - t.offset * (60 * perSecond)

def isBefore (t u : Timestamp) : Bool := t.moment < u.moment

/-- `seconds` later at the same offset, but no later than the last nanosecond of the year 9999. -/
def after (t : Timestamp) (seconds : Nat) : Timestamp where
  clock := min (t.clock + seconds * perSecond) (clockLimit - 1)
  offset := t.offset
  clock_lt := by have : 0 < clockLimit := by decide
                 omega
  offset_gt := t.offset_gt
  offset_lt := t.offset_lt

/-! ## Reading -/

def readNumber (width : Nat) (cs : List Char) : Option (Nat × List Char) :=
  let digits := cs.take width
  if digits.length = width ∧ digits.all Char.isDigit then
    some (Text.ofDecimal digits, cs.drop width)
  else none

def readMark (mark : Char) : List Char → Option (List Char)
  | c :: cs => if c = mark then some cs else none
  | [] => none

/-- The separator of date and time: any one ASCII character. -/
def readSeparator : List Char → Option (List Char)
  | c :: cs => if c.toNat < 128 then some cs else none
  | [] => none

def readDate (cs : List Char) : Option (Date × List Char) := do
  let (year, cs) ← readNumber 4 cs
  let (month, cs) ← readNumber 2 (← readMark '-' cs)
  let (day, cs) ← readNumber 2 (← readMark '-' cs)
  let date : Date := { year, month, day }
  if date.exists? then some (date, cs) else none

/-- The nanoseconds after a second: a point and digits, of which nine count, or nothing. -/
def readNanoseconds : List Char → Option (Nat × List Char)
  | '.' :: cs =>
    let digits := cs.takeWhile Char.isDigit
    if digits = [] then none
    else some (Text.ofDecimal (digits.take 9 |>.rightpad 9 '0'), cs.dropWhile Char.isDigit)
  | cs => some (0, cs)

def readOffset : List Char → Option Int
  | ['Z'] => some 0
  | ['z'] => some 0
  | sign :: cs => do
    let (hours, cs) ← readNumber 2 cs
    let (minutes, cs) ← readNumber 2 (← readMark ':' cs)
    if cs ≠ [] ∨ 23 < hours ∨ 59 < minutes then none
    else if sign = '+' then some (60 * hours + minutes : Nat)
    else if sign = '-' then some (-(60 * hours + minutes : Nat))
    else none
  | [] => none

/-- Whether a minute of local time is the last one of a month in UTC, the only one that may have
a leap second. -/
def endsMonth (minute : Nat) (offset : Int) : Bool :=
  let utc : Int := minute - offset
  utc % 1440 = 1439 && (Date.ofDays (utc / 1440 + 1).toNat).day = 1

/-- A leap second is taken for the last nanosecond before it. -/
def ofFields? (date : Date) (hour minute second nanoseconds : Nat) (offset : Int) :
    Option Timestamp :=
  let minutes := date.toDays * 1440 + hour * 60 + minute
  if 23 < hour ∨ 59 < minute then none
  else if second = 60 then
    if endsMonth minutes offset then ofClock? ((minutes + 1) * 60 * perSecond - 1) offset else none
  else if 59 < second then none
  else ofClock? ((minutes * 60 + second) * perSecond + nanoseconds) offset

def ofText? (cs : List Char) : Option Timestamp := do
  let (date, cs) ← readDate cs
  let (hour, cs) ← readNumber 2 (← readSeparator cs)
  let (minute, cs) ← readNumber 2 (← readMark ':' cs)
  let (second, cs) ← readNumber 2 (← readMark ':' cs)
  let (nanoseconds, cs) ← readNanoseconds cs
  let offset ← readOffset cs
  ofFields? date hour minute second nanoseconds offset

def ofString? (s : String) : Option Timestamp := ofText? s.toList

/-! ## Writing -/

/-- Nine digits without the zeros at the end, after a point; nothing for zero. -/
def nanosecondsText (nanoseconds : Nat) : List Char :=
  if nanoseconds = 0 then []
  else '.' :: ((Text.padded 9 nanoseconds).reverse.dropWhile (· == '0')).reverse

def offsetText (offset : Int) : List Char :=
  if offset = 0 then ['Z']
  else
    (if offset < 0 then '-' else '+') ::
      (Text.padded 2 (offset.natAbs / 60) ++ ':' :: Text.padded 2 (offset.natAbs % 60))

def dateText (date : Date) : List Char :=
  Text.padded 4 date.year ++ '-' :: (Text.padded 2 date.month ++ '-' :: Text.padded 2 date.day)

def timeText (seconds : Nat) : List Char :=
  Text.padded 2 (seconds / 3600) ++ ':' ::
    (Text.padded 2 (seconds / 60 % 60) ++ ':' :: Text.padded 2 (seconds % 60))

def toText (t : Timestamp) : List Char :=
  let seconds := t.clock / perSecond
  dateText (Date.ofDays (seconds / 86400)) ++ 'T' ::
    (timeText (seconds % 86400) ++ nanosecondsText (t.clock % perSecond) ++ offsetText t.offset)

def toString (t : Timestamp) : String := String.ofList t.toText

instance : ToString Timestamp := ⟨toString⟩

end Timestamp

end NameServer
