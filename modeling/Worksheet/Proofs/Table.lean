/-
Tables and the order in which their cells are visited.

A table is looked at entry by entry: two tables of the shape of one sheet are equal if they
agree at its cells.  The cells of a sheet are visited row by row, and each row from left to
right.
-/
import Worksheet.Evaluation.Request
import Mathlib.Data.List.Basic

namespace Worksheet

/-! ## Row-major order -/

/-- The cell stands in an earlier row, or further left in the same row. -/
def Cell.Precedes (cell other : Cell) : Prop :=
  cell.row < other.row ∨ cell.row = other.row ∧ cell.column < other.column

theorem Cell.Precedes.asymm {cell other : Cell} (h : cell.Precedes other) :
    ¬ other.Precedes cell := by
  unfold Precedes at h ⊢
  omega

theorem Cell.precedes_or_eq_or_precedes (cell other : Cell) :
    cell.Precedes other ∨ cell = other ∨ other.Precedes cell := by
  obtain ⟨row, column⟩ := cell
  obtain ⟨row', column'⟩ := other
  simp only [Precedes, Cell.mk.injEq]
  omega

theorem Sheet.pairwise_cells (sheet : Sheet) : sheet.cells.Pairwise Cell.Precedes := by
  rw [Sheet.cells, List.pairwise_flatMap]
  constructor
  · intro row _
    rw [Sheet.rowCells, List.pairwise_map]
    exact List.pairwise_lt_range.imp fun h => .inr ⟨rfl, h⟩
  · refine List.pairwise_lt_range.imp fun {row next} hlt cell hcell other hother => ?_
    obtain ⟨column, -, rfl⟩ := List.mem_map.mp hcell
    obtain ⟨column', -, rfl⟩ := List.mem_map.mp hother
    exact .inl hlt

theorem Sheet.pairwise_members (sheet : Sheet) :
    sheet.members.Pairwise fun cell other => cell.1.Precedes other.1 := by
  unfold Sheet.members
  exact sheet.pairwise_cells.pmap _ fun _ _ _ _ h => h

/-! ## Tables -/

namespace Table

def HasShape (sheet : Sheet) (table : Table) : Prop :=
  table.length = sheet.rowCount ∧ ∀ row ∈ table, row.length = sheet.columnCount

def valueAt? (table : Table) (cell : Cell) : Option Binary64 :=
  (table[cell.row]?).bind (·[cell.column]?)

theorem hasShape_table (sheet : Sheet) (progress : Progress) :
    HasShape sheet (sheet.table progress) := by
  constructor
  · simp [Sheet.table]
  · intro row hrow
    simp only [Sheet.table, List.mem_map] at hrow
    obtain ⟨n, -, rfl⟩ := hrow
    simp [Sheet.rowCells]

theorem valueAt?_table {sheet : Sheet} (progress : Progress) (cell : sheet.Member) :
    valueAt? (sheet.table progress) cell.1 = some (progress cell).value := by
  obtain ⟨⟨row, column⟩, hrow, hcolumn⟩ := cell
  simp only at hrow hcolumn
  simp [valueAt?, Sheet.table, Sheet.rowCells, hrow, hcolumn]

theorem row_ext {row other : List Binary64} (hlength : row.length = other.length)
    (h : ∀ column < row.length, row[column]? = other[column]?) : row = other := by
  refine List.ext_getElem? fun column => ?_
  by_cases hc : column < row.length
  · exact h column hc
  · rw [List.getElem?_eq_none (by omega), List.getElem?_eq_none (by omega)]

/-- Two tables of one shape that agree at every cell are one table. -/
theorem eq_of_entries {sheet : Sheet} {table other : Table} (h : HasShape sheet table)
    (ho : HasShape sheet other)
    (hentry : ∀ cell : sheet.Member, valueAt? table cell.1 = valueAt? other cell.1) :
    table = other := by
  refine List.ext_getElem (h.1.trans ho.1.symm) fun row hrow hrow' => ?_
  have hwidth : table[row].length = sheet.columnCount := h.2 _ (List.getElem_mem hrow)
  have hwidth' : other[row].length = sheet.columnCount := ho.2 _ (List.getElem_mem hrow')
  refine row_ext (hwidth.trans hwidth'.symm) fun column hcolumn => ?_
  have hin : sheet.Contains ⟨row, column⟩ := by
    constructor
    · rw [← h.1]
      exact hrow
    · rw [← hwidth]
      exact hcolumn
  have := hentry ⟨⟨row, column⟩, hin⟩
  simpa [valueAt?, List.getElem?_eq_getElem hrow, List.getElem?_eq_getElem hrow'] using this

end Table

end Worksheet
