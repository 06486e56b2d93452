/-
Labels against the size of a sheet.

The cell that a label names is decided on doubles, after the row was rounded once and the
column at every letter.  A sheet has no more rows and columns than there are safe numbers, and
below that bound a double that tracks a number decides it, so the answer is that of the exact
numbers for a label of any length (`locate_exact`).
-/
import Worksheet.Proofs.Label.Cell
import Worksheet.Proofs.Session

namespace Worksheet

open Binary64

namespace Sheet

variable {sheet : Sheet}

/-- Two doubles that track the number of a row and of a column, counted from one, name the cell
of these numbers. -/
theorem memberAt?_of_tracks (hrows : sheet.rowCount ≤ maxSafe)
    (hcolumns : sheet.columnCount ≤ maxSafe) {x y : Binary64} {n m : Nat} (hx : Tracks x n)
    (hy : Tracks y m) {cell : sheet.Member} :
    sheet.memberAt? ⟨x - 1, y - 1⟩ = some cell ↔ n = cell.1.row + 1 ∧ m = cell.1.column + 1 := by
  obtain ⟨hrow, hcolumn⟩ : sheet.Contains cell.1 := cell.2
  rw [memberAt?_eq_some_iff, hx.toNat?_sub_one_eq_some_iff (by omega),
    hy.toNat?_sub_one_eq_some_iff (by omega)]

/-! ## The exact numbers of a label -/

/-- The exact numbers of the digits and of the letters are numbers of a row and of a column. -/
def Numbers (sheet : Sheet) (letters digits : List Char) : Prop :=
  (1 ≤ Decimal.value digits ∧ Decimal.value digits ≤ sheet.rowCount) ∧
    1 ≤ ColumnLabel.value letters ∧ ColumnLabel.value letters ≤ sheet.columnCount

instance (sheet : Sheet) (letters digits : List Char) : Decidable (sheet.Numbers letters digits) :=
  inferInstanceAs (Decidable (_ ∧ _))

end Sheet

namespace CellLabel

/-- The cell of the exact numbers, counted from zero. -/
def cellOf (letters digits : List Char) : Cell :=
  ⟨Decimal.value digits - 1, ColumnLabel.value letters - 1⟩

end CellLabel

namespace Sheet

open CellLabel

variable {sheet : Sheet} {label : String} {letters digits : List Char}

theorem Numbers.contains (h : sheet.Numbers letters digits) :
    sheet.Contains (cellOf letters digits) := by
  obtain ⟨⟨hfirst, hlast⟩, hleft, hright⟩ := h
  constructor
  · show Decimal.value digits - 1 < sheet.rowCount
    omega
  · show ColumnLabel.value letters - 1 < sheet.columnCount
    omega

/-- The position of a label is that of the cell of its exact numbers, and of no other cell. -/
theorem toPosition_names (hrows : sheet.rowCount ≤ maxSafe)
    (hcolumns : sheet.columnCount ≤ maxSafe) (h : Spells label.toList letters digits) :
    ∃ position, toPosition label = .ok position ∧ ∀ cell : sheet.Member,
      sheet.memberAt? position = some cell ↔ Decimal.value digits = cell.1.row + 1 ∧
        ColumnLabel.value letters = cell.1.column + 1 := by
  obtain ⟨x, hposition, hx⟩ := toPosition_of_spells h
  exact ⟨_, hposition, fun _ => memberAt?_of_tracks hrows hcolumns (tracks_ofNat _) hx⟩

theorem atLabel_of_numbers (hrows : sheet.rowCount ≤ maxSafe)
    (hcolumns : sheet.columnCount ≤ maxSafe) (h : Spells label.toList letters digits)
    (hin : sheet.Numbers letters digits) :
    sheet.atLabel label = .ok ⟨cellOf letters digits, hin.contains⟩ := by
  obtain ⟨position, hposition, hmember⟩ := toPosition_names hrows hcolumns h
  have hfound := (hmember ⟨cellOf letters digits, hin.contains⟩).mpr
    ⟨(Nat.sub_add_cancel hin.1.1).symm, (Nat.sub_add_cancel hin.2.1).symm⟩
  simp only [atLabel, hposition, hfound]

theorem atLabel_of_not_numbers (hrows : sheet.rowCount ≤ maxSafe)
    (hcolumns : sheet.columnCount ≤ maxSafe) (h : Spells label.toList letters digits)
    (hout : ¬ sheet.Numbers letters digits) :
    sheet.atLabel label = .error (sheet.outOfRange label) := by
  obtain ⟨position, hposition, hmember⟩ := toPosition_names hrows hcolumns h
  simp only [atLabel, hposition]
  cases hfound : sheet.memberAt? position with
  | none => rfl
  | some cell =>
    obtain ⟨hrow, hcolumn⟩ := (hmember cell).mp hfound
    obtain ⟨hlast, hright⟩ : sheet.Contains cell.1 := cell.2
    exact absurd ⟨⟨by omega, by omega⟩, by omega, by omega⟩ hout

theorem atLabel_of_not_spells (h : ∀ letters digits, ¬ Spells label.toList letters digits) :
    sheet.atLabel label = .error (.invalidReference label) := by
  simp only [atLabel, toPosition_of_not_spells h]

end Sheet

namespace Evaluator
namespace Session

open CellLabel

/-- A label is located at the cell of its exact numbers if the sheet has that cell.  A label
with a number outside the sheet is out of range, however long it is, and a text of another form
is no label. -/
theorem locate_exact (session : Session) (hrows : session.evaluator.sheet.rowCount ≤ maxSafe)
    (hcolumns : session.evaluator.sheet.columnCount ≤ maxSafe) (label : String) :
    (∀ cell, (session.step (.locate label)).1 = .cell cell ↔
      ∃ letters digits, Spells label.toList letters digits ∧
        session.evaluator.sheet.Numbers letters digits ∧ cell = cellOf letters digits) ∧
    (∀ letters digits, Spells label.toList letters digits →
      ¬ session.evaluator.sheet.Numbers letters digits →
      (session.step (.locate label)).1 =
        .failed (.outOfRange label (.ofNat session.evaluator.sheet.rowCount)
          (.ofNat session.evaluator.sheet.columnCount))) ∧
    ((∀ letters digits, ¬ Spells label.toList letters digits) →
      (session.step (.locate label)).1 = .failed (.invalidReference label)) := by
  have hinside : ∀ letters digits, Spells label.toList letters digits →
      session.evaluator.sheet.Numbers letters digits →
      (session.step (.locate label)).1 = .cell (cellOf letters digits) := by
    intro letters digits hspells hin
    simp only [step, Sheet.atLabel_of_numbers hrows hcolumns hspells hin]
  have houtside : ∀ letters digits, Spells label.toList letters digits →
      ¬ session.evaluator.sheet.Numbers letters digits → (session.step (.locate label)).1 =
        .failed (session.evaluator.sheet.outOfRange label) := by
    intro letters digits hspells hout
    simp only [step, Sheet.atLabel_of_not_numbers hrows hcolumns hspells hout]
  have hother : (∀ letters digits, ¬ Spells label.toList letters digits) →
      (session.step (.locate label)).1 = .failed (.invalidReference label) := by
    intro hnot
    simp only [step, Sheet.atLabel_of_not_spells hnot]
  -- The three answers exclude each other, so the one that was given tells the form of the label.
  refine ⟨fun cell => ⟨fun hcell => ?_, ?_⟩, houtside, hother⟩
  · by_cases hspells : ∃ letters digits, Spells label.toList letters digits
    · obtain ⟨letters, digits, hspells⟩ := hspells
      by_cases hin : session.evaluator.sheet.Numbers letters digits
      · rw [hinside letters digits hspells hin] at hcell
        cases hcell
        exact ⟨letters, digits, hspells, hin, rfl⟩
      · rw [houtside letters digits hspells hin] at hcell
        cases hcell
    · rw [hother fun letters digits h => hspells ⟨letters, digits, h⟩] at hcell
      cases hcell
  · rintro ⟨letters, digits, hspells, hin, rfl⟩
    exact hinside letters digits hspells hin

/-- In two rows of three cells `c02` is the last cell, and a row with the number 2^64 + 1, which
a double rounds, is outside. -/
theorem locate_exact_two_by_three :
    let sheet : Sheet := ⟨[["1", "2", "3"], ["4", "5", "6"]], by decide⟩
    let host : Host := ⟨"", 0, 0, [], 0, 0⟩
    let session := fresh host (.mute host) "" sheet
    (session.evaluator.sheet.rowCount ≤ maxSafe ∧ session.evaluator.sheet.columnCount ≤ maxSafe) ∧
      (session.step (.locate "c02")).1 = .cell ⟨1, 2⟩ ∧
      (session.step (.locate "A18446744073709551617")).1 =
        .failed (.outOfRange "A18446744073709551617" 2 3) ∧
      (session.step (.locate "3C")).1 = .failed (.invalidReference "3C") := by
  intro sheet host session
  have hrows : session.evaluator.sheet.rowCount ≤ maxSafe := by decide
  have hcolumns : session.evaluator.sheet.columnCount ≤ maxSafe := by decide
  refine ⟨⟨hrows, hcolumns⟩, ?_, ?_, ?_⟩
  · refine ((locate_exact session hrows hcolumns "c02").1 ⟨1, 2⟩).mpr ⟨['c'], ['0', '2'], ?_, ?_, ?_⟩
    · exact split?_eq_some_iff.mp (by decide)
    · decide
    · decide
  · refine (locate_exact session hrows hcolumns "A18446744073709551617").2.1 ['A']
      "18446744073709551617".toList (split?_eq_some_iff.mp (by decide)) (by decide)
  · exact (locate_exact session hrows hcolumns "3C").2.2 (split?_eq_none_iff.mp (by decide))

end Session
end Evaluator
end Worksheet
