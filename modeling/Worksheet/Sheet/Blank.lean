/-
Blank rows of a given size.

A caller may ask for any two numbers.  Fractions are cut and negative numbers count as
zero; what remains has to be the length of a list.
-/
import Worksheet.Binary64.Basic

namespace Worksheet
namespace Sheet
namespace Blank

/-- The length of the longest list there is, one less than 2^32. -/
def longest : Nat := 4294967295

/-- A length that is no number of elements of a list. -/
inductive LengthFault where
  | invalid
  deriving DecidableEq

namespace LengthFault

def name : LengthFault → String
  | invalid => "RangeError"

def message : LengthFault → String
  | invalid => "Invalid array length"

end LengthFault

/-- The length that a number asks for: its whole part, or zero below zero. -/
def length (x : Binary64) : Except LengthFault Nat :=
  match x with
  | .nan => .error .invalid
  | .infinite negative => if negative then .ok 0 else .error .invalid
  | .finite negative units _ =>
    if negative then .ok 0
    else if units / Binary64.one ≤ longest then .ok (units / Binary64.one)
    else .error .invalid

/-- Rows of empty cells.  No number of rows counts as zero, and the number of columns is
looked at only if there is a row to fill. -/
def rows (rowCount columnCount : Binary64) : Except LengthFault (List (List String)) :=
  if rowCount = .nan then .ok []
  else
    match length rowCount with
    | .error fault => .error fault
    | .ok 0 => .ok []
    | .ok (n + 1) =>
      match length columnCount with
      | .error fault => .error fault
      | .ok m => .ok (List.replicate (n + 1) (List.replicate m ""))

end Blank
end Sheet
end Worksheet
