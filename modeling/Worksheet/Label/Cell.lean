/-
Cell labels such as `B2`: the letters of a column and the digits of a row.

A label counts both from one and a position counts both from zero.  Reading checks the form
only; whether a sheet has such a cell is the sheet's affair.
-/
import Worksheet.Label.Column

namespace Worksheet

/-- A row and a column, counted from zero. -/
structure Position where
  row : Binary64
  column : Binary64
  deriving DecidableEq

namespace CellLabel

/-- Cuts a text into its letters and its digits, if it is letters followed by digits. -/
def split? (text : List Char) : Option (List Char × List Char) :=
  let letters := text.takeWhile Char.isAlpha
  let digits := text.dropWhile Char.isAlpha
  if letters ≠ [] ∧ digits ≠ [] ∧ digits.all Char.isDigit then some (letters, digits) else none

def isLabel (text : String) : Bool := (split? text.toList).isSome

def toPosition (label : String) : Except Fault Position :=
  match split? label.toList with
  | none => .error (.invalidReference label)
  | some (letters, digits) =>
    match ColumnLabel.toIndex (String.ofList letters) true with
    | .error fault => .error fault
    | .ok column => .ok ⟨.ofNat (Decimal.value digits) - 1, column - 1⟩

/-- The label of a row and a column that are counted from zero. -/
def ofPosition (position : Position) : Except Fault String :=
  match ColumnLabel.ofIndex (position.column + 1) with
  | .error fault => .error fault
  | .ok column => .ok (column ++ (position.row + 1).text)

end CellLabel
end Worksheet
