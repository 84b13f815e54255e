import HclTidy.Text.Basic

/-!
# Timestamps

A date of the Gregorian calendar, which may have a time of day. Two times that both have an offset
from universal time are the same when they name the same instant; all others are the same when their
fields are.
-/

set_option autoImplicit false

namespace HclTidy

/-- A time of day, with its offset from universal time in minutes if it has one. -/
structure TimeOfDay where
  hour : Nat
  minute : Nat
  second : Nat
  microsecond : Nat
  offset : Option Int
deriving Repr, DecidableEq

structure Timestamp where
  year : Nat
  month : Nat
  day : Nat
  time : Option TimeOfDay
deriving Repr, DecidableEq

/-- Why there is no such time. -/
inductive Timestamp.Fault where
  | offset (minutes : Int)
  | year (year : Nat)
  | month
  | day
  | hour
  | minute
  | second
deriving Repr, DecidableEq

namespace Timestamp

def isLeap (year : Nat) : Bool := year % 4 = 0 && (year % 100 ≠ 0 || year % 400 = 0)

def daysIn (year month : Nat) : Nat :=
  if month = 2 then if isLeap year then 29 else 28
  else if [4, 6, 9, 11].contains month then 30
  else 31

def minutesPerDay : Nat := 1440

/-- The first field that is out of range. An offset is looked at before the date, and the date
before the time. -/
def fault? (t : Timestamp) : Option Fault :=
  let offset := t.time.bind TimeOfDay.offset
  if offset.any fun minutes => minutesPerDay ≤ minutes.natAbs then offset.map .offset
  else if t.year = 0 || 9999 < t.year then some (.year t.year)
  else if t.month = 0 || 12 < t.month then some .month
  else if t.day = 0 || daysIn t.year t.month < t.day then some .day
  else
    t.time.bind fun time =>
      if 23 < time.hour then some .hour
      else if 59 < time.minute then some .minute
      else if 59 < time.second then some .second
      else none

/-- A number with at least `width` digits. -/
def padded (width n : Nat) : Text :=
  let digits := Text.ofNat n
  List.replicate (width - digits.length) '0' ++ digits

/-- An offset as hours and minutes. -/
def offsetText (minutes : Int) : Text :=
  (if minutes < 0 then '-' else '+') :: padded 2 (minutes.natAbs / 60) ++ ':' ::
    padded 2 (minutes.natAbs % 60)

def timeText (t : TimeOfDay) : Text :=
  padded 2 t.hour ++ ':' :: padded 2 t.minute ++ ':' :: padded 2 t.second
    ++ (if t.microsecond = 0 then [] else '.' :: padded 6 t.microsecond)
    ++ (t.offset.map offsetText).getD []

/-- The date, and behind a space the time. -/
def printed (t : Timestamp) : Text :=
  padded 4 t.year ++ '-' :: padded 2 t.month ++ '-' :: padded 2 t.day
    ++ (t.time.map fun time => ' ' :: timeText time).getD []

/-- The number of days before a date, counted from the first day of the year 1. -/
def dayNumber (t : Timestamp) : Nat :=
  let years := t.year - 1
  365 * years + years / 4 - years / 100 + years / 400
    + ((List.range (t.month - 1)).foldl (fun days month => days + daysIn t.year (month + 1)) 0)
    + (t.day - 1)

/-- The microseconds up to the instant that is named, for a time with an offset. -/
def instant? (t : Timestamp) : Option Int :=
  match t.time with
  | none => none
  | some time =>
    time.offset.map fun minutes =>
      ((((t.dayNumber * 24 + time.hour) * 60 + time.minute : Nat) : Int) - minutes) * 60000000
        + ((time.second * 1000000 + time.microsecond : Nat) : Int)

def isSame (a b : Timestamp) : Bool :=
  match a.instant?, b.instant? with
  | some x, some y => x = y
  | _, _ => a = b

end Timestamp

/-- The fields of a span of time, as it is written out: whole days and seconds. -/
def Timestamp.spanText (minutes : Int) : String :=
  let days := minutes / minutesPerDay
  let seconds := minutes % minutesPerDay * 60
  let parts :=
    (if days = 0 then [] else ["days=" ++ toString days])
      ++ (if seconds = 0 then [] else ["seconds=" ++ toString seconds])
  "datetime.timedelta(" ++ (if parts.isEmpty then "0" else ", ".intercalate parts) ++ ")"

def Timestamp.Fault.message : Timestamp.Fault → String
  | .offset minutes =>
    "offset must be a timedelta strictly between -timedelta(hours=24) and timedelta(hours=24), not "
      ++ spanText minutes ++ "."
  | .year n => "year " ++ toString n ++ " is out of range"
  | .month => "month must be in 1..12"
  | .day => "day is out of range for month"
  | .hour => "hour must be in 0..23"
  | .minute => "minute must be in 0..59"
  | .second => "second must be in 0..59"

end HclTidy
