/-
What an operand means: a reference to a cell, or a whole number.

A text that has the form of a cell label is a reference, even to a cell that no sheet has;
every other text has to be a whole number of at most 53 bits.
-/
import Worksheet.Formula.Basic
import Worksheet.Label.Cell

namespace Worksheet

/-! ## Whole numbers -/

namespace Literal

/-- Takes a sign off the front, if there is one. -/
def takeSign : List Char → Sign × List Char
  | '+' :: rest => (.plus, rest)
  | '-' :: rest => (.minus, rest)
  | text => (.plus, text)

/-- The exact whole number that a text spells, if it is digits with or without a sign. -/
def spelled? (text : List Char) : Option Int :=
  match takeSign text with
  | (_, []) => none
  | (sign, digits) =>
    if digits.all Char.isDigit then
      match sign with
      | .plus => some (Decimal.value digits)
      | .minus => some (-(Decimal.value digits))
    else none

/-- Reads a whole number with blanks around it.  One whose nearest double is not safe is
refused. -/
def parse? (text : List Char) : Option Binary64 :=
  match spelled? (Text.trim text) with
  | none => none
  | some n => if (Binary64.ofInt n).isSafe then some (Binary64.ofInt n) else none

end Literal

/-! ## Terms -/

inductive Term where
  | reference (label : String) (position : Position)
  | literal (value : Binary64)
  deriving DecidableEq

namespace Term

def parse (text : String) : Except Fault Term :=
  if CellLabel.isLabel text then
    match CellLabel.toPosition text with
    | .ok position => .ok (.reference text position)
    | .error fault => .error fault
  else
    match Literal.parse? text.toList with
    | some value => .ok (.literal value)
    | none => .error (.invalidToken text)

end Term
end Worksheet
