/-
Drafts of an instant.

A draft holds the parts of a date and of a time of day in the order in which a text names
them.  Which part is the year, the month or the day is decided at the end, when all of them
are there: a name settles the month, a number that is no day of a month can only be the
year, and otherwise the month comes first and the year last.
-/
import Worksheet.Log.Instant.Basic

namespace Worksheet
namespace Instant

/-- A zone, by its distance from universal time. -/
structure Zone where
  behind : Bool
  hours : Nat
  /-- None as long as they may still follow. -/
  minutes : Option Nat
  deriving DecidableEq

namespace Zone

def ofHours (hours : Int) : Zone := ⟨decide (hours < 0), hours.natAbs, some 0⟩

def universal : Zone := ofHours 0

def isUniversal (zone : Zone) : Bool := zone.hours = 0 && zone.minutes = some 0

/-- The distance in milliseconds.  Its seconds are kept in a word of 32 bits, and the upper
half of the words is no distance. -/
def distance? (zone : Zone) : Option Int :=
  let seconds := (zone.hours * 3600 + zone.minutes.getD 0 * 60) % 4294967296
  if seconds < 2147483648 then
    let ms : Int := seconds * 1000
    some (if zone.behind then -ms else ms)
  else none

end Zone

structure Draft where
  /-- Up to three parts of the date that are numbers. -/
  date : List Int
  month : Option Nat
  /-- Hours, minutes, seconds and milliseconds, as far as they are known. -/
  time : List Nat
  /-- The hours before the half of the day that is named. -/
  halfDay : Option Nat
  zone : Option Zone
  /-- The parts of the date are a year, a month and a day. -/
  standard : Bool
  deriving DecidableEq

namespace Draft

def ofDate (date : List Int) : Draft := ⟨date, none, [], none, none, false⟩

def hasNumber (draft : Draft) : Bool := !draft.date.isEmpty || !draft.time.isEmpty

/-! ## Adding parts -/

/-- The number may be the minutes of the zone. -/
def expectsZone (draft : Draft) (n : Nat) : Bool :=
  match draft.zone with
  | some zone => zone.minutes.isNone && n < 60
  | none => false

/-- The number may be the next part of a time of day that has begun. -/
def expectsTime (draft : Draft) (n : Nat) : Bool :=
  match draft.time.length with
  | 1 => n < 60
  | 2 => n < 60
  | 3 => n < 1000
  | _ => false

def withZone (draft : Draft) (zone : Zone) : Draft := { draft with zone := some zone }

def withZoneMinutes (draft : Draft) (n : Nat) : Draft :=
  { draft with zone := draft.zone.map fun zone => { zone with minutes := some n } }

def addDate? (draft : Draft) (n : Nat) : Option Draft :=
  if draft.date.length < 3 then some { draft with date := draft.date ++ [(n : Int)] } else none

def addTime? (draft : Draft) (n : Nat) : Option Draft :=
  if draft.time.length < 4 then some { draft with time := draft.time ++ [n] } else none

/-- The last parts of the time of day; all that is missing is zero. -/
def endTime (draft : Draft) (parts : List Nat) : Draft :=
  { draft with time := (draft.time ++ parts ++ [0, 0, 0]).take 4 }

/-! ## The instant -/

def isMonth (n : Int) : Bool := 1 ≤ n && n ≤ 12

def isDay (n : Int) : Bool := 1 ≤ n && n ≤ 31

/-- A year with its century: two digits stand for the years from 1950 to 2049. -/
def fullYear (year : Int) : Int :=
  if 0 ≤ year ∧ year < 50 then year + 2000
  else if 50 ≤ year ∧ year < 100 then year + 1900
  else year

/-- The year, the month and the day of three parts. -/
def order (draft : Draft) (first second third : Int) : Int × Int × Int :=
  match draft.month with
  | some month =>
    if isDay first then (fullYear second, month, first) else (fullYear first, month, second)
  | none =>
    if draft.standard then (first, second, third)
    else if isDay first then (fullYear third, first, second)
    else (fullYear first, second, third)

/-- The day, counted from 1970.  A missing part is one, but some part has to be there.  A
day that the month does not have runs over into the next month. -/
def day? (draft : Draft) : Option Int :=
  match draft.date with
  | [] => none
  | first :: others =>
    let (year, month, day) := draft.order first (others.getD 0 1) (others.getD 1 1)
    if isMonth month && isDay day then some (dayOfMonth year month.toNat + (day - 1)) else none

/-- The hours from midnight; none if a half of the day has no such hour. -/
def hours? (draft : Draft) : Option Nat :=
  let hours := draft.time.getD 0 0
  match draft.halfDay with
  | none => some hours
  | some before => if hours ≤ 12 then some (hours % 12 + before) else none

/-- The milliseconds from midnight.  Of the hour 24 there is only the beginning. -/
def inDay? (draft : Draft) : Option Nat :=
  let minutes := draft.time.getD 1 0
  let seconds := draft.time.getD 2 0
  let millis := draft.time.getD 3 0
  match draft.hours? with
  | none => none
  | some hours =>
    if hours < 24 ∧ minutes < 60 ∧ seconds < 60 ∧ millis < 1000 ∨
        hours = 24 ∧ minutes = 0 ∧ seconds = 0 ∧ millis = 0 then
      some (((hours * 60 + minutes) * 60 + seconds) * 1000 + millis)
    else none

def distance? (draft : Draft) : Option Int :=
  match draft.zone with
  | none => some 0
  | some zone => zone.distance?

def instant? (draft : Draft) : Option Int :=
  match draft.day?, draft.inDay?, draft.distance? with
  | some day, some inDay, some distance =>
    let ms := day * dayLength + inDay - distance
    if inRange ms then some ms else none
  | _, _, _ => none

end Draft
end Instant
end Worksheet
