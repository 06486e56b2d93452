/-
Everything that reads a reference reads the same texts.

A reference is recognized by its form, is read as a position, is read as a term of a formula, and is
a column label with digits behind it, whose letters are checked once more when the column is read.
These four agree on every text (`readings_agree`): the letters that the form lets through are those
that the column takes, so that the second check never fails, and what the form refuses is no
position and is left to the literals.
-/
import Worksheet.Proofs.Label.Positional
import Worksheet.Proofs.Cause
import Mathlib.Tactic.TFAE

namespace Worksheet
namespace CellLabel

/-- The text is a label that is read as a column, with the digits of a row behind it. -/
structure Parts (text column row : String) : Prop where
  text_eq : text = column ++ row
  column_ne_empty : column ≠ ""
  reads : ∃ x, ColumnLabel.toIndex column false = .ok x
  row_ne_empty : row ≠ ""
  isDigit : ∀ c ∈ row.toList, c.isDigit = true

variable {text column row : String}

/-- A column is read exactly if it consists of letters, which is what the form asks for. -/
theorem parts_iff : Parts text column row ↔ Spells text.toList column.toList row.toList := by
  constructor
  · intro h
    refine ⟨?_, ?_, ?_, ?_, h.isDigit⟩
    · rw [h.text_eq, String.toList_append]
    · exact mt String.toList_eq_nil_iff.mp h.column_ne_empty
    · exact (ColumnLabel.exists_toIndex_eq_ok_iff.mp h.reads).1
    · exact mt String.toList_eq_nil_iff.mp h.row_ne_empty
  · intro h
    refine ⟨?_, ?_, ?_, ?_, h.isDigit⟩
    · rw [← String.toList_inj, String.toList_append, h.text_eq]
    · exact mt String.toList_eq_nil_iff.mpr h.letters_ne_nil
    · exact ColumnLabel.exists_toIndex_eq_ok_iff.mpr ⟨h.isAlpha, fun hfalse => (by cases hfalse)⟩
    · exact mt String.toList_eq_nil_iff.mpr h.digits_ne_nil

theorem isLabel_iff_parts : isLabel text = true ↔ ∃ column row, Parts text column row := by
  rw [isLabel_iff]
  constructor
  · rintro ⟨letters, digits, h⟩
    refine ⟨String.ofList letters, String.ofList digits, parts_iff.mpr ?_⟩
    rwa [String.toList_ofList, String.toList_ofList]
  · rintro ⟨column, row, h⟩
    exact ⟨_, _, parts_iff.mp h⟩

theorem Parts.unique (h : Parts text column row) {column' row' : String}
    (h' : Parts text column' row') : column' = column ∧ row' = row := by
  obtain ⟨hcolumn, hrow⟩ := (parts_iff.mp h).unique (parts_iff.mp h')
  exact ⟨String.toList_inj.mp hcolumn, String.toList_inj.mp hrow⟩

/-! ## Texts of the form -/

/-- The position of a reference is put together from what its parts are read as. -/
theorem Parts.toPosition_eq (h : Parts text column row) {x : Binary64}
    (hx : ColumnLabel.toIndex column false = .ok x) :
    toPosition text = .ok ⟨.ofNat (Decimal.value row.toList) - 1, x - 1⟩ := by
  have hspells := parts_iff.mp h
  have hrequired : ColumnLabel.toIndex column true = .ok x := by
    rw [ColumnLabel.toIndex_of_ne_nil hspells.letters_ne_nil,
      ← ColumnLabel.toIndex_of_ne_nil hspells.letters_ne_nil false, hx]
  simp only [toPosition, split?_eq_some_iff.mpr hspells, String.ofList_toList, hrequired]

theorem parse_of_toPosition {position : Position} (h : isLabel text = true)
    (hposition : toPosition text = .ok position) :
    Term.parse text = .ok (.reference text position) := by
  rw [Term.parse, if_pos h, hposition]

/-! ## Other texts -/

theorem toPosition_of_isLabel_eq_false (h : isLabel text = false) :
    toPosition text = .error (.invalidReference text) :=
  toPosition_of_not_spells (isLabel_eq_false_iff.mp h)

theorem parse_of_isLabel_eq_false (h : isLabel text = false) : Term.parse text =
    (Literal.parse? text.toList).elim (.error (.invalidToken text)) (fun x => .ok (.literal x)) := by
  rw [Term.parse, if_neg (Bool.eq_false_iff.mp h)]
  cases Literal.parse? text.toList <;> rfl

/-! ## All readings -/

theorem exists_toPosition_eq_ok_iff :
    (∃ position, toPosition text = .ok position) ↔ isLabel text = true := by
  constructor
  · rintro ⟨position, hposition⟩
    by_contra hnot
    rw [toPosition_of_isLabel_eq_false (Bool.eq_false_iff.mpr hnot)] at hposition
    cases hposition
  · intro h
    obtain ⟨column, row, hparts⟩ := isLabel_iff_parts.mp h
    obtain ⟨x, hx⟩ := hparts.reads
    exact ⟨_, hparts.toPosition_eq hx⟩

/-- A position is refused for the form of the text only. -/
theorem toPosition_eq_error {fault : Fault} (h : toPosition text = .error fault) :
    fault = .invalidReference text := by
  cases hlabel : isLabel text with
  | false =>
    rw [toPosition_of_isLabel_eq_false hlabel] at h
    exact (Except.error.inj h).symm
  | true =>
    obtain ⟨position, hposition⟩ := exists_toPosition_eq_ok_iff.mpr hlabel
    rw [hposition] at h
    cases h

theorem exists_parse_eq_reference_iff :
    (∃ label position, Term.parse text = .ok (.reference label position)) ↔
      isLabel text = true := by
  constructor
  · rintro ⟨label, position, hparse⟩
    by_contra hnot
    rw [parse_of_isLabel_eq_false (Bool.eq_false_iff.mpr hnot)] at hparse
    cases hnumber : Literal.parse? text.toList with
    | none =>
      rw [hnumber] at hparse
      cases hparse
    | some x =>
      rw [hnumber] at hparse
      cases hparse
  · intro h
    obtain ⟨position, hposition⟩ := exists_toPosition_eq_ok_iff.mpr h
    exact ⟨_, _, parse_of_toPosition h hposition⟩

/-- A text has the form of a reference, is read as a position, is read as a reference of a formula
and has a column and a row all at once or not at all.  The column and the row are then determined,
both readings are the position that they make up, and the reference is the text.  Every other text
is no position, and it is a literal or no term.  No reading blames the letters of the column. -/
theorem readings_agree (text : String) :
    List.TFAE [isLabel text = true,
      ∃ position, toPosition text = .ok position,
      ∃ label position, Term.parse text = .ok (.reference label position),
      ∃ column row, Parts text column row] ∧
    (∀ column row, Parts text column row →
      (∀ column' row', Parts text column' row' → column' = column ∧ row' = row) ∧
      ∃ x position, ColumnLabel.toIndex column false = .ok x ∧
        position = ⟨.ofNat (Decimal.value row.toList) - 1, x - 1⟩ ∧
        toPosition text = .ok position ∧ Term.parse text = .ok (.reference text position)) ∧
    (isLabel text = false →
      toPosition text = .error (.invalidReference text) ∧
      (∀ x, Literal.parse? text.toList = some x → Term.parse text = .ok (.literal x)) ∧
      (Literal.parse? text.toList = none → Term.parse text = .error (.invalidToken text))) ∧
    ∀ label character, toPosition text ≠ .error (.invalidLabel label character) ∧
      Term.parse text ≠ .error (.invalidLabel label character) := by
  refine ⟨?_, fun column row h => ⟨fun _ _ h' => h.unique h', ?_⟩, fun h => ?_, ?_⟩
  · tfae_have 1 ↔ 2 := exists_toPosition_eq_ok_iff.symm
    tfae_have 1 ↔ 3 := exists_parse_eq_reference_iff.symm
    tfae_have 1 ↔ 4 := isLabel_iff_parts
    tfae_finish
  · obtain ⟨x, hx⟩ := h.reads
    have hposition := h.toPosition_eq hx
    exact ⟨x, _, hx, rfl, hposition, parse_of_toPosition (isLabel_iff_parts.mpr ⟨_, _, h⟩) hposition⟩
  · refine ⟨toPosition_of_isLabel_eq_false h, fun x hx => ?_, fun hnone => ?_⟩
    · rw [parse_of_isLabel_eq_false h, hx, Option.elim_some]
    · rw [parse_of_isLabel_eq_false h, hnone, Option.elim_none]
  · intro label character
    constructor
    · intro herror
      cases toPosition_eq_error herror
    · intro herror
      cases (Term.parse_eq_error herror).1

/-- A reference, a literal, and a reference with a line feed behind it, which is neither. -/
theorem readings_agree_three :
    let reference := "aB007"
    let literal := "-12"
    let neither := "A1\n"
    (Parts reference "aB" "007" ∧ ∃ x position, ColumnLabel.toIndex "aB" false = .ok x ∧
      position = ⟨.ofNat (Decimal.value "007".toList) - 1, x - 1⟩ ∧
      toPosition reference = .ok position ∧
      Term.parse reference = .ok (.reference reference position)) ∧
    (isLabel literal = false ∧ toPosition literal = .error (.invalidReference literal) ∧
      Literal.parse? literal.toList = some (.ofInt (-12)) ∧
      Term.parse literal = .ok (.literal (.ofInt (-12)))) ∧
    isLabel neither = false ∧ Literal.parse? neither.toList = none ∧
      Term.parse neither = .error (.invalidToken neither) := by
  intro reference literal neither
  have hparts : Parts reference "aB" "007" :=
    parts_iff.mpr (split?_eq_some_iff.mp (by decide))
  have hliteral : isLabel literal = false := by decide
  have hnumber : Literal.parse? literal.toList = some (.ofInt (-12)) := by decide +kernel
  have hneither : isLabel neither = false := by decide
  have hnone : Literal.parse? neither.toList = none := by decide
  obtain ⟨hposition, hterm, -⟩ := (readings_agree literal).2.2.1 hliteral
  exact ⟨⟨hparts, ((readings_agree reference).2.1 _ _ hparts).2⟩,
    ⟨hliteral, hposition, hnumber, hterm _ hnumber⟩, hneither, hnone,
    ((readings_agree neither).2.2.1 hneither).2.2 hnone⟩

end CellLabel
end Worksheet
