/-
Instants: milliseconds since the start of 1970, in universal time.

An instant is written as a date and a time of day to the millisecond.  Dates follow the
Gregorian rule for all years, and a year outside 0 to 9999 has a sign and six digits.
-/
import Worksheet.Binary64.Decimal

namespace Worksheet
namespace Instant

/-- The largest distance from 1970 that an instant may have: a hundred million days. -/
def farthest : Nat := 8640000000000000

def inRange (ms : Int) : Bool := ms.natAbs ≤ farthest

def dayLength : Int := 86400000

/-! ## Days and dates -/

structure Date where
  year : Int
  month : Nat
  day : Nat
  deriving DecidableEq

/-- Years begin in March here, so that the day added every four years is the last one of a
year; 719468 days lie between March of the year zero and 1970, and the calendar repeats
after 146097. -/
def dateOfDay (days : Int) : Date :=
  let shifted := days + 719468
  let cycle := shifted / 146097
  let inCycle := (shifted % 146097).toNat
  let year := (inCycle - inCycle / 1460 + inCycle / 36524 - inCycle / 146096) / 365
  let inYear := inCycle - (365 * year + year / 4 - year / 100)
  let month := (5 * inYear + 2) / 153
  let day := inYear - (153 * month + 2) / 5 + 1
  let civilMonth := if month < 10 then month + 3 else month - 9
  ⟨year + cycle * 400 + (if civilMonth ≤ 2 then 1 else 0), civilMonth, day⟩

/-- The number of the first day of a month, counted from 1970. -/
def dayOfMonth (year : Int) (month : Nat) : Int :=
  let shifted := if month ≤ 2 then year - 1 else year
  let cycle := shifted / 400
  let inCycle := shifted % 400
  let fromMarch : Int := if 2 < month then month - 3 else month + 9
  cycle * 146097 + (inCycle * 365 + inCycle / 4 - inCycle / 100 + (153 * fromMarch + 2) / 5)
    - 719468

/-! ## Writing -/

def padded (width n : Nat) : List Char :=
  let digits := Decimal.digitsOf n
  List.replicate (width - digits.length) '0' ++ digits

def yearText (year : Int) : List Char :=
  if 0 ≤ year ∧ year ≤ 9999 then padded 4 year.natAbs
  else (if year < 0 then '-' else '+') :: padded 6 year.natAbs

/-- What stands where an instant would, if there is none. -/
def invalid : String := "Invalid Date"

def text (ms : Int) : String :=
  let date := dateOfDay (ms / dayLength)
  let inDay := (ms % dayLength).toNat
  String.ofList <|
    yearText date.year ++ '-' :: padded 2 date.month ++ '-' :: padded 2 date.day ++
      'T' :: padded 2 (inDay / 3600000) ++ ':' :: padded 2 (inDay / 60000 % 60) ++
      ':' :: padded 2 (inDay / 1000 % 60) ++ '.' :: padded 3 (inDay % 1000) ++ ['Z']

/-- The instant that a clock shows, written. -/
def textOf (clock : Binary64) : String :=
  match clock.truncate? with
  | some ms => if inRange ms then text ms else invalid
  | none => invalid

theorem isDigit_of_mem_padded {width n : Nat} {c : Char} (h : c ∈ padded width n) :
    c.isDigit = true := by
  rcases List.mem_append.mp h with hzero | hdigit
  · rw [List.eq_of_mem_replicate hzero]
    rfl
  · exact Decimal.isDigit_of_mem_digitsOf hdigit

/-- The time of day on a clock of twelve hours. -/
def timeOfDay (ms : Int) : String :=
  let inDay := (ms % dayLength).toNat
  let hour := inDay / 3600000
  let shown := if hour % 12 = 0 then 12 else hour % 12
  String.ofList <|
    padded 1 shown ++ ':' :: padded 2 (inDay / 60000 % 60) ++ ':' :: padded 2 (inDay / 1000 % 60)
      ++ ' ' :: (if hour < 12 then 'A' else 'P') :: ['M']

theorem escape_not_mem_timeOfDay (ms : Int) : '\x1b' ∉ (timeOfDay ms).toList := by
  have hpadded : ∀ width n, '\x1b' ∉ padded width n := by
    intro width n hmem
    exact absurd (isDigit_of_mem_padded hmem) (by decide)
  have hhalf : ∀ hour : Nat, '\x1b' ≠ if hour < 12 then 'A' else 'P' := by
    intro hour
    split <;> decide
  simp only [timeOfDay, String.toList_ofList, List.mem_append, List.mem_cons, List.not_mem_nil,
    hpadded, hhalf, or_false, false_or, not_or]
  decide

end Instant
end Worksheet
