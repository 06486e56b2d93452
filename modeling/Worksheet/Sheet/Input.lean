/-
Sheets from values and from JSON text.

A sheet may be handed in as a list of rows or as the JSON text of one.  A cell is a text, a
finite number or null; numbers become their decimal text and null becomes the empty cell.
Every faulty row and cell is reported, in reading order; whether the rows are all of one
length is asked only when no part is faulty.
-/
import Worksheet.Check.Standard
import Worksheet.Json.Parser
import Worksheet.Sheet.Basic

namespace Worksheet
namespace Sheet

/-! ## The schema -/

/-- The text of a value that may stand in a cell. -/
def cellText : Value → String
  | .null => ""
  | value => value.display

def cellCheck (checker : Checker) : Check String :=
  checker.transform (checker.union [checker.text, checker.finite, checker.null]) cellText

def rowCheck (checker : Checker) : Check (List String) := checker.list (cellCheck checker)

def gridCheck (checker : Checker) : Check (List (List String)) := checker.list (rowCheck checker)

/-- The rows of texts that a value stands for.  They need not be of one length. -/
def rowsOf (value : Value) (checker : Checker := .standard) : Verdict (List (List String)) :=
  gridCheck checker value

/-! ## Reading -/

/-- The issue of a text that is not JSON; why it is not is left to the reader. -/
def notJson : String := "Grid content is not valid JSON: <reason>"

/-- The sheet that a value which is no text stands for. -/
def ofValue (value : Value) (checker : Checker := .standard) : Except Fault Sheet :=
  match rowsOf value checker with
  | .ok rows => ofRows rows
  | .error issues => .error (.invalidInput (issues.map Issue.line))

/-- The sheet that a value stands for.  A text is read as JSON first. -/
def read (value : Value) (checker : Checker := .standard) : Except Fault Sheet :=
  match value with
  | .string text =>
    match Json.parse text with
    | some value => ofValue value checker
    | none => .error (.invalidInput [notJson])
  | .half _ => .error (.invalidInput [notJson])
  | value => ofValue value checker

end Sheet
end Worksheet
