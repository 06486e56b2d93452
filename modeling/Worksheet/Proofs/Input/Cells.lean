/-
The values that are taken as rows of cells.

A cell is a text, a finite number or null, and `Spelled` says which text each of them gives.
`rowsOf_eq_ok_iff` says that rows are read off a value exactly if it is a list of lists of cells,
whatever their lengths, and that each cell is then read by itself.  It holds of every checker that
keeps to its rules.
-/
import Worksheet.Sheet.Input
import Worksheet.Proofs.Check.Basic

namespace Worksheet
namespace Sheet

/-! ## Cells -/

/-- The text that a cell is given as.  Null stands for the empty cell.  Half a character, which no
text can hold, is given as the mark for one. -/
inductive Spelled : Value → String → Prop
  | text (s : String) : Spelled (.string s) s
  | half (half : Half) : Spelled (.half half) (Value.half half).display
  | number (negative : Bool) (units : Nat) (fits : Binary64.Fits units) :
      Spelled (.number (.finite negative units fits)) (Binary64.finite negative units fits).text
  | empty : Spelled .null ""

/-- A text, a finite number or null. -/
def IsCell (value : Value) : Prop := ∃ text, Spelled value text

section

variable {value other : Value} {text : String}

theorem Spelled.eq_cellText (h : Spelled value text) : text = cellText value := by
  cases h with
  | text s => rfl
  | half half => rfl
  | number negative units fits => rfl
  | empty => rfl

theorem isCell_iff :
    IsCell value ↔ value.kind = "string" ∨ value.isFinite = true ∨ value = .null := by
  constructor
  · rintro ⟨text, h⟩
    cases h with
    | text s => exact .inl rfl
    | half half => exact .inl rfl
    | number negative units fits => exact .inr (.inl rfl)
    | empty => exact .inr (.inr rfl)
  · intro h
    cases value with
    | null => exact ⟨_, .empty⟩
    | string s => exact ⟨s, .text s⟩
    | half half => exact ⟨_, .half half⟩
    | number x =>
      cases x with
      | finite negative units fits => exact ⟨_, .number negative units fits⟩
      | _ => exact absurd h (by simp [Value.kind, Value.isFinite])
    | _ => exact absurd h (by simp [Value.kind, Value.isFinite])

end

/-! ### The check of a cell -/

section

variable {checker : Checker} (lawful : checker.Lawful) {value other : Value} {text : String}

include lawful

theorem exists_takes {check : Check Value}
    (hcheck : check ∈ [checker.text, checker.finite, checker.null]) :
    ∃ property, check.Takes property ∧ ∀ value, property value → IsCell value := by
  simp only [List.mem_cons, List.not_mem_nil, or_false] at hcheck
  rcases hcheck with rfl | rfl | rfl
  · exact ⟨_, lawful.text_takes, fun _ hkind => isCell_iff.mpr (.inl hkind)⟩
  · exact ⟨_, lawful.finite_takes, fun _ hfinite => isCell_iff.mpr (.inr (.inl hfinite))⟩
  · exact ⟨_, lawful.null_takes, fun _ hnull => isCell_iff.mpr (.inr (.inr hnull))⟩

theorem cellCheck_of_isCell (h : IsCell value) :
    cellCheck checker value = .ok (cellText value) := by
  have htaken : ∃ check ∈ [checker.text, checker.finite, checker.null],
      check value = .ok value := by
    rcases isCell_iff.mp h with hkind | hfinite | hnull
    · exact ⟨checker.text, by simp, lawful.text_takes.takes value hkind⟩
    · exact ⟨checker.finite, by simp, lawful.finite_takes.takes value hfinite⟩
    · exact ⟨checker.null, by simp, lawful.null_takes.takes value hnull⟩
  rw [cellCheck, lawful.transform_eq, lawful.union_eq_ok htaken]
  · rfl
  · intro check hcheck part hpart
    obtain ⟨property, htakes, -⟩ := exists_takes lawful hcheck
    exact htakes.eq_of_eq_ok hpart

theorem exists_cellCheck_eq_error (h : ¬ IsCell value) :
    ∃ problem, cellCheck checker value = .error [⟨[], problem⟩] := by
  have hrefused : ∀ check ∈ [checker.text, checker.finite, checker.null],
      ∃ problem, check value = .error [⟨[], problem⟩] := by
    intro check hcheck
    obtain ⟨property, htakes, hcell⟩ := exists_takes lawful hcheck
    obtain ⟨problem, hrefuses⟩ := htakes.refuses
    exact ⟨problem value.kind, hrefuses value fun hvalue => h (hcell value hvalue)⟩
  obtain ⟨problem, hproblem⟩ := lawful.exists_union_eq_error hrefused
  exact ⟨problem, by rw [cellCheck, lawful.transform_eq, hproblem]; rfl⟩

/-- Of a value that is no cell only the kind matters. -/
theorem cellCheck_congr (h : ¬ IsCell value) (hother : ¬ IsCell other)
    (hkind : value.kind = other.kind) : cellCheck checker value = cellCheck checker other := by
  rw [cellCheck, lawful.transform_eq, lawful.transform_eq,
    lawful.union_congr _ value other fun check hcheck => ?_]
  obtain ⟨property, htakes, hcell⟩ := exists_takes lawful hcheck
  exact htakes.congr_of_not (fun hvalue => h (hcell value hvalue))
    (fun hvalue => hother (hcell other hvalue)) hkind

theorem cellCheck_eq_ok_iff : cellCheck checker value = .ok text ↔ Spelled value text := by
  constructor
  · intro h
    by_cases hcell : IsCell value
    · obtain ⟨other, hspelled⟩ := hcell
      rw [cellCheck_of_isCell lawful ⟨other, hspelled⟩] at h
      rw [← Except.ok.inj h, ← hspelled.eq_cellText]
      exact hspelled
    · obtain ⟨problem, hproblem⟩ := exists_cellCheck_eq_error lawful hcell
      cases hproblem.symm.trans h
  · intro h
    rw [cellCheck_of_isCell lawful ⟨text, h⟩, h.eq_cellText]

end

/-! ## Values that are taken -/

/-- The texts of a row of cells. -/
def RowSpelled (value : Value) (texts : List String) : Prop :=
  ∃ items, value = .list items ∧ List.Forall₂ Spelled items texts

theorem forall₂_rowSpelled_iff {rows : List Value} {texts : List (List String)} :
    List.Forall₂ RowSpelled rows texts ↔
      ∃ grid, rows = grid.map .list ∧ List.Forall₂ (List.Forall₂ Spelled) grid texts := by
  constructor
  · intro h
    induction h with
    | nil => exact ⟨[], rfl, .nil⟩
    | cons hrow _ ih =>
      obtain ⟨items, rfl, hitems⟩ := hrow
      obtain ⟨grid, rfl, hgrid⟩ := ih
      exact ⟨items :: grid, rfl, .cons hitems hgrid⟩
  · rintro ⟨grid, rfl, hgrid⟩
    induction hgrid with
    | nil => exact .nil
    | cons hitems _ ih => exact .cons ⟨_, rfl, hitems⟩ ih

section

variable {checker : Checker} (lawful : checker.Lawful) {value : Value}

include lawful

theorem rowCheck_eq_ok_iff {texts : List String} :
    rowCheck checker value = .ok texts ↔ RowSpelled value texts := by
  simp only [rowCheck, lawful.list_eq_ok_iff, cellCheck_eq_ok_iff lawful, RowSpelled]

theorem rowsOf_eq_ok_iff {texts : List (List String)} :
    rowsOf value checker = .ok texts ↔ ∃ grid, value = .list (grid.map .list) ∧
      List.Forall₂ (List.Forall₂ Spelled) grid texts := by
  simp only [rowsOf, gridCheck, lawful.list_eq_ok_iff, rowCheck_eq_ok_iff lawful,
    forall₂_rowSpelled_iff]
  constructor
  · rintro ⟨rows, rfl, grid, rfl, hgrid⟩
    exact ⟨grid, rfl, hgrid⟩
  · rintro ⟨grid, rfl, hgrid⟩
    exact ⟨grid.map .list, rfl, grid, rfl, hgrid⟩

end

end Sheet
end Worksheet
