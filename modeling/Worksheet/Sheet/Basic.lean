/-
Sheets: rows of cell text, all of one length.

A `Sheet` carries the proof that it is rectangular, so an evaluation never meets a row that
is too short.  `ofRows` is the only way in from rows of any shape, and it names the first
row that differs from the first one.
-/
import Worksheet.Label.Cell

namespace Worksheet

/-- A cell, by row and column counted from zero. -/
structure Cell where
  row : Nat
  column : Nat
  deriving DecidableEq

namespace Cell

/-- The position of a cell in the terms of labels. -/
def position (cell : Cell) : Position := ⟨.ofNat cell.row, .ofNat cell.column⟩

/-- The label of a cell, such as `B2` for the second row and column. -/
def label (cell : Cell) : String :=
  String.ofList (ColumnLabel.letters (cell.position.column + 1)) ++ (cell.position.row + 1).text

end Cell

structure Sheet where
  rows : List (List String)
  rectangular : ∀ row ∈ rows, row.length = (rows.headD []).length

namespace Sheet

def rowCount (sheet : Sheet) : Nat := sheet.rows.length

def columnCount (sheet : Sheet) : Nat := (sheet.rows.headD []).length

/-! ## Making a sheet -/

/-- The number and the length of the first row that is not `width` long, where the rows are
counted from `next`. -/
def firstRagged (width : Nat) : Nat → List (List String) → Option (Nat × Nat)
  | _, [] => none
  | next, row :: rest =>
    if row.length = width then firstRagged width (next + 1) rest else some (next, row.length)

theorem firstRagged_eq_none_iff {width : Nat} (rows : List (List String)) (next : Nat) :
    firstRagged width next rows = none ↔ ∀ row ∈ rows, row.length = width := by
  induction rows generalizing next with
  | nil => simp [firstRagged]
  | cons row rest ih =>
    unfold firstRagged
    split
    · rename_i h
      simp [ih, h]
    · rename_i h
      simp [h]

/-- Takes rows that are all as long as the first. -/
def ofRows (rows : List (List String)) : Except Fault Sheet :=
  match h : firstRagged (rows.headD []).length 0 rows with
  | none => .ok ⟨rows, (firstRagged_eq_none_iff rows 0).mp h⟩
  | some (row, length) =>
    .error (.raggedRows (.ofNat row) (.ofNat length) (.ofNat (rows.headD []).length))

/-- A rectangular list of rows is taken as it is. -/
theorem ofRows_rows (sheet : Sheet) : ofRows sheet.rows = .ok sheet := by
  have h := (firstRagged_eq_none_iff sheet.rows 0).mpr sheet.rectangular
  unfold ofRows
  split
  · rfl
  · rename_i heq
    rw [h] at heq
    cases heq

/-! ## Cells -/

def Contains (sheet : Sheet) (cell : Cell) : Prop :=
  cell.row < sheet.rowCount ∧ cell.column < sheet.columnCount

instance (sheet : Sheet) (cell : Cell) : Decidable (sheet.Contains cell) :=
  inferInstanceAs (Decidable (_ ∧ _))

/-- The cell at a position, if the position is a pair of whole numbers inside the sheet. -/
def cellAt? (sheet : Sheet) (position : Position) : Option Cell :=
  match position.row.toNat?, position.column.toNat? with
  | some row, some column => if sheet.Contains ⟨row, column⟩ then some ⟨row, column⟩ else none
  | _, _ => none

theorem contains_of_cellAt? {sheet : Sheet} {position : Position} {cell : Cell}
    (h : sheet.cellAt? position = some cell) : sheet.Contains cell := by
  unfold cellAt? at h
  split at h
  · split at h
    · rename_i hin
      cases h
      exact hin
    · cases h
  · cases h

/-- The text of a cell as it was entered; empty outside the sheet. -/
def text (sheet : Sheet) (cell : Cell) : String :=
  ((sheet.rows[cell.row]?.getD [])[cell.column]?).getD ""

def rowCells (sheet : Sheet) (row : Nat) : List Cell :=
  (List.range sheet.columnCount).map (Cell.mk row)

def cells (sheet : Sheet) : List Cell := (List.range sheet.rowCount).flatMap sheet.rowCells

theorem mem_cells {sheet : Sheet} {cell : Cell} : cell ∈ sheet.cells ↔ sheet.Contains cell := by
  simp only [cells, rowCells, List.mem_flatMap, List.mem_map, List.mem_range, Contains]
  constructor
  · rintro ⟨row, hrow, column, hcolumn, rfl⟩
    exact ⟨hrow, hcolumn⟩
  · rintro ⟨hrow, hcolumn⟩
    exact ⟨cell.row, hrow, cell.column, hcolumn, rfl⟩

/-- The reported form of a position outside the sheet: a label where there is one, else the
two numbers. -/
def describe (position : Position) : String :=
  match position.row.toNat?, position.column.toNat? with
  | some _, some _ =>
    String.ofList (ColumnLabel.letters (position.column + 1)) ++ (position.row + 1).text
  | _, _ => "(" ++ position.row.text ++ ", " ++ position.column.text ++ ")"

/-- The fault of asking a sheet for something outside it. -/
def outOfRange (sheet : Sheet) (reference : String) : Fault :=
  .outOfRange reference (.ofNat sheet.rowCount) (.ofNat sheet.columnCount)

end Sheet

end Worksheet
