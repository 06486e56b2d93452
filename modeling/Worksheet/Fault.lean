/-
What can be wrong with a sheet.

A fault is a cause with the facts that a caller needs to find it; its wording is in
`message` alone.  Row and column numbers are doubles because a caller may report a fault of
its own about any pair of numbers.
-/
import Worksheet.Binary64.Shortest

namespace Worksheet

inductive Fault where
  /-- A row, counted from zero, that is not as long as the first one. -/
  | raggedRows (row length expected : Binary64)
  /-- A column label that is empty, or that holds a character which is no letter. -/
  | invalidLabel (label : String) (character : Option String)
  /-- A column number that is negative or no whole number. -/
  | invalidIndex (index : Binary64)
  /-- A text that is not letters followed by digits. -/
  | invalidReference (reference : String)
  /-- A cell, counted from one, that holds neither a whole number nor a formula. -/
  | invalidCellValue (label : String) (row column : Binary64) (raw : String)
  /-- A formula that breaks the grammar, or has no answer for the reason given. -/
  | invalidFormula (formula : String) (reason : Option String)
  /-- An operand that is neither a reference nor a whole number. -/
  | invalidToken (token : String)
  | outOfRange (reference : String) (rowCount columnCount : Binary64)
  /-- A cell that needs its own value. -/
  | circularReference (label : String)
  /-- An input that is not a list of rows of cells. -/
  | invalidInput (issues : List String)
  deriving DecidableEq

namespace Fault

/-- The name under which a fault is reported. -/
def name : Fault → String
  | raggedRows .. => "RaggedGridError"
  | invalidLabel .. => "InvalidLabelError"
  | invalidIndex .. => "InvalidIndexError"
  | invalidReference .. => "InvalidReferenceError"
  | invalidCellValue .. => "InvalidCellValueError"
  | invalidFormula .. => "InvalidFormulaError"
  | invalidToken .. => "InvalidTokenError"
  | outOfRange .. => "OutOfRangeError"
  | circularReference .. => "CircularReferenceError"
  | invalidInput .. => "InvalidGridInputError"

/-- A code for programs to branch on. -/
def code : Fault → String
  | raggedRows .. => "RAGGED_GRID"
  | invalidLabel .. => "INVALID_LABEL"
  | invalidIndex .. => "INVALID_INDEX"
  | invalidReference .. => "INVALID_REFERENCE"
  | invalidCellValue .. => "INVALID_CELL_VALUE"
  | invalidFormula .. => "INVALID_FORMULA"
  | invalidToken .. => "INVALID_TOKEN"
  | outOfRange .. => "OUT_OF_RANGE"
  | circularReference .. => "CIRCULAR_REFERENCE"
  | invalidInput .. => "INVALID_GRID_INPUT"

/-- The lines of a report, each behind a dash. -/
def bulleted (lines : List String) : String :=
  String.intercalate "\n" (lines.map ("  - " ++ ·))

/-- The wording of a fault.  A formula with an empty reason is worded as one without. -/
def message : Fault → String
  | raggedRows row length expected =>
    "All rows must have the same number of columns: row " ++ (row + 1).text ++ " has " ++
      length.text ++ ", expected " ++ expected.text
  | invalidLabel _ none => "Column label must not be empty"
  | invalidLabel label (some character) =>
    "Invalid character \"" ++ character ++ "\" in column label \"" ++ label ++
      "\". Only letters A-Z are allowed"
  | invalidIndex index => "Column index must be a non-negative integer, got " ++ index.text
  | invalidReference reference => "Invalid cell reference: " ++ reference
  | invalidCellValue label row column raw =>
    "Invalid cell value at " ++ label ++ " (row " ++ row.text ++ ", column " ++ column.text ++
      "): " ++ raw
  | invalidFormula formula none => "Invalid formula: " ++ formula
  | invalidFormula formula (some reason) =>
    if reason = "" then "Invalid formula: " ++ formula
    else "Invalid formula: " ++ formula ++ " (" ++ reason ++ ")"
  | invalidToken token => "Invalid token: " ++ token
  | outOfRange reference rowCount columnCount =>
    "Reference out of range: " ++ reference ++ " (grid has " ++ rowCount.text ++ " rows and " ++
      columnCount.text ++ " columns)"
  | circularReference label => "Circular reference detected at " ++ label
  | invalidInput issues => "Invalid grid input:\n" ++ bulleted issues

end Fault
end Worksheet
