/-
What can be asked of a sheet that is being evaluated.

A request starts from the progress so far and leaves progress for the next one.  Cells that
are done stay done, so a later request finds their values; a request that fails gives up
the cells it had in progress, so that asking again meets the same fault.
-/
import Worksheet.Evaluation.Walk

namespace Worksheet

abbrev Table := List (List Binary64)

namespace Sheet

/-- A cell that lies in the sheet. -/
abbrev Member (sheet : Sheet) := { cell : Cell // sheet.Contains cell }

/-- The cell of the sheet at a position, if there is one. -/
def memberAt? (sheet : Sheet) (position : Position) : Option sheet.Member :=
  match h : sheet.cellAt? position with
  | some cell => some ⟨cell, contains_of_cellAt? h⟩
  | none => none

def members (sheet : Sheet) : List sheet.Member :=
  sheet.cells.pmap Subtype.mk fun _ h => mem_cells.mp h

/-! ## Naming a cell -/

/-- The cell at a position; a fault that describes the position if there is none. -/
def atPosition (sheet : Sheet) (position : Position) : Except Fault sheet.Member :=
  match sheet.memberAt? position with
  | some cell => .ok cell
  | none => .error (sheet.outOfRange (describe position))

def atLabel (sheet : Sheet) (label : String) : Except Fault sheet.Member :=
  match CellLabel.toPosition label with
  | .error fault => .error fault
  | .ok position =>
    match sheet.memberAt? position with
    | some cell => .ok cell
    | none => .error (sheet.outOfRange label)

def markAt (sheet : Sheet) (progress : Progress) (position : Position) : Except Fault Mark :=
  match sheet.atPosition position with
  | .ok cell => .ok (progress cell)
  | .error fault => .error fault

/-! ## Evaluating -/

/-- Ends a request.  A failed one gives up what is in progress. -/
def close {α : Type} : Except Fault α × Progress → Except Fault α × Progress
  | (.ok answer, progress) => (.ok answer, progress)
  | (.error fault, progress) => (.error fault, progress.settle)

/-- Evaluates a cell that may be known not to exist. -/
def evaluate (sheet : Sheet) (cell : Except Fault sheet.Member) (progress : Progress) :
    Outcome × Progress :=
  match cell with
  | .ok cell => close (sheet.resolve cell cell.property progress)
  | .error fault => close (.error fault, progress)

def evaluateCell (sheet : Sheet) (position : Position) (progress : Progress) :
    Outcome × Progress :=
  sheet.evaluate (sheet.atPosition position) progress

def evaluateReference (sheet : Sheet) (label : String) (progress : Progress) :
    Outcome × Progress :=
  sheet.evaluate (sheet.atLabel label) progress

/-- Evaluates cells one after the other, up to the first that has no value. -/
def resolveEach (sheet : Sheet) : List sheet.Member → Progress → Except Fault Unit × Progress
  | [], progress => (.ok (), progress)
  | cell :: rest, progress =>
    match sheet.resolve cell cell.property progress with
    | (.ok _, after) => sheet.resolveEach rest after
    | (.error fault, after) => (.error fault, after)

def table (sheet : Sheet) (progress : Progress) : Table :=
  (List.range sheet.rowCount).map fun row =>
    (sheet.rowCells row).map fun cell => (progress cell).value

def evaluateAll (sheet : Sheet) (progress : Progress) : Except Fault Table × Progress :=
  match close (sheet.resolveEach sheet.members progress) with
  | (.ok (), after) => (.ok (sheet.table after), after)
  | (.error fault, after) => (.error fault, after)

/-- The values of all cells of a sheet that nothing has been asked of before. -/
def values (sheet : Sheet) : Except Fault Table := (sheet.evaluateAll Progress.fresh).1

/-- The values of rows of cell texts. -/
def valuesOfRows (rows : List (List String)) : Except Fault Table :=
  match ofRows rows with
  | .ok sheet => sheet.values
  | .error fault => .error fault

end Sheet
end Worksheet
