import MarkdownOutlets.Text.Basic

/-! # Points in time

  A day of the calendar, with or without a time of day. A time of day may
  say how far it is from universal time; without that it is not known which
  moment is meant.
-/

namespace MarkdownOutlets

/-! ### Days and clocks -/

/-- A day of the calendar. -/
structure Day where
  /-- The year, from 1 on. -/
  year : Nat
  /-- The month, from 1 to 12. -/
  month : Nat
  /-- The day of the month, from 1 on. -/
  day : Nat
  deriving DecidableEq, Repr

/-- A time of day. -/
structure Clock where
  /-- The hour, below 24. -/
  hour : Nat
  /-- The minute, below 60. -/
  minute : Nat
  /-- The second, below 60. -/
  second : Nat
  /-- The millionth of a second, below a million. -/
  micro : Nat
  /-- How many minutes the clock is ahead of universal time, if that is
      known. -/
  ahead : Option Int
  deriving DecidableEq, Repr

/-- A day, or a moment of a day. -/
structure Timestamp where
  /-- The day. -/
  day : Day
  /-- The time of day, if one is given. -/
  clock : Option Clock
  deriving DecidableEq, Repr

namespace Day

/-- A year of 366 days. -/
def isLeapYear (year : Nat) : Bool :=
  year % 4 = 0 && (year % 100 ≠ 0 || year % 400 = 0)

/-- Number of days of a month. -/
def monthLength (year month : Nat) : Nat :=
  if month = 2 then if isLeapYear year then 29 else 28
  else if [4, 6, 9, 11].contains month then 30
  else 31

end Day

/-! ### Faults -/

/-- Why numbers are no point in time. -/
inductive TimeFault
  /-- There is no such year. -/
  | year (n : Nat)
  /-- There is no such month. -/
  | month
  /-- The month has no such day. -/
  | day
  /-- There is no such hour. -/
  | hour
  /-- There is no such minute. -/
  | minute
  /-- There is no such second. -/
  | second
  /-- A clock cannot be so many minutes ahead. -/
  | ahead (minutes : Int)
  deriving DecidableEq, Repr

namespace Timestamp

/-- A number of minutes as messages quote it: in whole days and seconds. -/
def quotedMinutes (minutes : Int) : Text :=
  let days := minutes / 1440
  let seconds := minutes % 1440 * 60
  let part (name : String) (n : Int) : List Text :=
    if n = 0 then [] else [name.toList ++ '=' :: Text.ofInt n]
  let parts := part "days" days ++ part "seconds" seconds
  "datetime.timedelta(".toList
    ++ (if parts = [] then ['0'] else Text.join [',', ' '] parts) ++ [')']

end Timestamp

/-- The wording of a fault. -/
def TimeFault.message : TimeFault → Text
  | .year n => "year ".toList ++ Text.ofNat n ++ " is out of range".toList
  | .month => "month must be in 1..12".toList
  | .day => "day is out of range for month".toList
  | .hour => "hour must be in 0..23".toList
  | .minute => "minute must be in 0..59".toList
  | .second => "second must be in 0..59".toList
  | .ahead n =>
    ("offset must be a timedelta strictly between -timedelta(hours=24) and "
      ++ "timedelta(hours=24), not ").toList ++ Timestamp.quotedMinutes n ++ ['.']

namespace Timestamp

/-! ### Checks -/

/-- A check of one number, with the fault if it fails. -/
def require (holds : Bool) (fault : TimeFault) : Except TimeFault Unit :=
  if holds then .ok () else .error fault

/-- A day whose numbers make sense. -/
def checkDay (d : Day) : Except TimeFault Day := do
  require (1 ≤ d.year && d.year ≤ 9999) (.year d.year)
  require (1 ≤ d.month && d.month ≤ 12) .month
  require (1 ≤ d.day && d.day ≤ Day.monthLength d.year d.month) .day
  return d

/-- A point in time whose numbers make sense. -/
def check (t : Timestamp) : Except TimeFault Timestamp :=
  match t.clock with
  | none => do
    let _ ← checkDay t.day
    return t
  | some c => do
    let ahead := c.ahead.getD 0
    require (-1440 < ahead && ahead < 1440) (.ahead ahead)
    let _ ← checkDay t.day
    require (c.hour < 24) .hour
    require (c.minute < 60) .minute
    require (c.second < 60) .second
    return t

/-! ### As texts -/

/-- A number with zeros in front, up to a width. -/
def padded (width n : Nat) : Text :=
  let digits := Text.ofNat n
  List.replicate (width - digits.length) '0' ++ digits

/-- The distance of a clock from universal time. -/
def aheadText (minutes : Int) : Text :=
  (if minutes < 0 then '-' else '+') :: padded 2 (minutes.natAbs / 60)
    ++ ':' :: padded 2 (minutes.natAbs % 60)

/-- A point in time as part of a running text. -/
def plain (t : Timestamp) : Text :=
  let day := padded 4 t.day.year ++ '-' :: padded 2 t.day.month ++ '-' :: padded 2 t.day.day
  match t.clock with
  | none => day
  | some c =>
    day ++ ' ' :: padded 2 c.hour ++ ':' :: padded 2 c.minute ++ ':' :: padded 2 c.second
      ++ (if c.micro = 0 then [] else '.' :: padded 6 c.micro)
      ++ (c.ahead.map aheadText).getD []

/-- The zone of a clock as messages quote it. -/
def quotedZone (minutes : Int) : Text :=
  if minutes = 0 then "datetime.timezone.utc".toList
  else "datetime.timezone(".toList ++ quotedMinutes minutes ++ [')']

/-- A point in time as messages quote it. Seconds are left out where
    everything behind the minutes is zero. -/
def quoted (t : Timestamp) : Text :=
  let numbers (ns : List Nat) : List Text := ns.map Text.ofNat
  let day := numbers [t.day.year, t.day.month, t.day.day]
  let call (name : String) (parts : List Text) : Text :=
    name.toList ++ '(' :: Text.join [',', ' '] parts ++ [')']
  match t.clock with
  | none => call "datetime.date" day
  | some c =>
    let rest :=
      if c.micro ≠ 0 then [c.second, c.micro] else if c.second ≠ 0 then [c.second] else []
    let zone := (c.ahead.map fun m => "tzinfo=".toList ++ quotedZone m).toList
    call "datetime.datetime" (day ++ numbers ([c.hour, c.minute] ++ rest) ++ zone)

/-- The name of the kind of a point in time. -/
def kindName (t : Timestamp) : Text :=
  if t.clock.isNone then "date".toList else "datetime".toList

end Timestamp

end MarkdownOutlets
