/-
Cell labels, read exactly.

A cell label is letters followed by digits, and a text is cut in one way at most
(`split?_eq_some_iff`).  The row is rounded once and the column at every letter, so a position
that is read may be far from the label; it tracks the two exact numbers, and that is enough to
decide them inside any sheet.
-/
import Worksheet.Proofs.Label.Column
import Worksheet.Sheet.Basic

namespace Worksheet
namespace CellLabel

open Binary64

/-- The text is one or more letters followed by one or more digits. -/
structure Spells (text letters digits : List Char) : Prop where
  text_eq : text = letters ++ digits
  letters_ne_nil : letters ≠ []
  isAlpha : ∀ c ∈ letters, c.isAlpha = true
  digits_ne_nil : digits ≠ []
  isDigit : ∀ c ∈ digits, c.isDigit = true

theorem not_isAlpha_of_isDigit {c : Char} (h : c.isDigit = true) : ¬ c.isAlpha = true := by
  have hdigit : (decide (48 ≤ c.toNat) && decide (c.toNat ≤ 57)) = true := h
  have hlast : c.toNat ≤ 57 := of_decide_eq_true ((Bool.and_eq_true _ _).mp hdigit).2
  intro halpha
  have hcase : (c.isUpper || c.isLower) = true := halpha
  rcases (Bool.or_eq_true _ _).mp hcase with hupper | hlower
  · have hrange : 65 ≤ c.toNat ∧ c.toNat ≤ 90 := of_decide_eq_true hupper
    omega
  · have hfirst : 97 ≤ c.toNat := of_decide_eq_true ((Bool.and_eq_true _ _).mp hlower).1
    omega

/-! ## Cutting a text -/

section

variable {text letters digits : List Char}

theorem Spells.takeWhile_eq (h : Spells text letters digits) :
    text.takeWhile Char.isAlpha = letters ∧ text.dropWhile Char.isAlpha = digits := by
  rw [h.text_eq, List.takeWhile_append_of_pos h.isAlpha, List.dropWhile_append_of_pos h.isAlpha]
  cases digits with
  | nil => exact absurd rfl h.digits_ne_nil
  | cons d rest =>
    have hd : ¬ d.isAlpha = true := not_isAlpha_of_isDigit (h.isDigit d List.mem_cons_self)
    rw [List.takeWhile_cons_of_neg hd, List.dropWhile_cons_of_neg hd, List.append_nil]
    exact ⟨rfl, rfl⟩

theorem split?_eq_some_iff : split? text = some (letters, digits) ↔ Spells text letters digits := by
  constructor
  · intro h
    simp only [split?] at h
    split at h
    · rename_i hform
      obtain ⟨hletters, hdigits, hall⟩ := hform
      cases h
      refine ⟨List.takeWhile_append_dropWhile.symm, hletters, fun c hc => ?_, hdigits, fun c hc => ?_⟩
      · exact List.all_eq_true.mp List.all_takeWhile c hc
      · exact List.all_eq_true.mp hall c hc
    · cases h
  · intro h
    obtain ⟨htake, hdrop⟩ := h.takeWhile_eq
    simp only [split?, htake, hdrop]
    rw [if_pos ⟨h.letters_ne_nil, h.digits_ne_nil, List.all_eq_true.mpr h.isDigit⟩]

/-- A text is cut in one place at most. -/
theorem Spells.unique (h : Spells text letters digits) {letters' digits' : List Char}
    (h' : Spells text letters' digits') : letters' = letters ∧ digits' = digits := by
  have hsame := (split?_eq_some_iff.mpr h').symm.trans (split?_eq_some_iff.mpr h)
  exact Prod.mk.inj (Option.some.inj hsame)

theorem split?_eq_none_iff : split? text = none ↔ ∀ letters digits, ¬ Spells text letters digits := by
  constructor
  · intro hnone letters digits h
    rw [split?_eq_some_iff.mpr h] at hnone
    cases hnone
  · intro hnot
    cases hsplit : split? text with
    | none => rfl
    | some parts => exact absurd (split?_eq_some_iff.mp hsplit) (hnot parts.1 parts.2)

end

/-! ## Positions -/

variable {label : String} {letters digits : List Char}

theorem isLabel_iff :
    isLabel label = true ↔ ∃ letters digits, Spells label.toList letters digits := by
  rw [isLabel, Option.isSome_iff_exists, Prod.exists]
  exact exists₂_congr fun _ _ => split?_eq_some_iff

theorem isLabel_eq_false_iff :
    isLabel label = false ↔ ∀ letters digits, ¬ Spells label.toList letters digits := by
  rw [Bool.eq_false_iff, ne_eq, isLabel_iff, not_exists]
  exact forall_congr' fun _ => not_exists

/-- The position of a label is a row that is rounded once and a column that tracks its number. -/
theorem toPosition_of_spells (h : Spells label.toList letters digits) :
    ∃ x, toPosition label = .ok ⟨.ofNat (Decimal.value digits) - 1, x - 1⟩ ∧
      Tracks x (ColumnLabel.value letters) := by
  have hread := ColumnLabel.toIndex_tracks (String.ofList letters) true
  rw [String.toList_ofList] at hread
  obtain ⟨x, hx, htracks⟩ := hread h.isAlpha fun _ => h.letters_ne_nil
  refine ⟨x, ?_, htracks⟩
  simp only [toPosition, split?_eq_some_iff.mpr h, hx]

/-- Neither the case of the letters nor zeros in front of the digits move a position. -/
theorem toPosition_congr {label' : String} {letters' digits' : List Char}
    (h : Spells label.toList letters digits) (h' : Spells label'.toList letters' digits')
    (hcase : letters'.map Char.toUpper = letters.map Char.toUpper)
    (hrow : Decimal.value digits' = Decimal.value digits) : toPosition label' = toPosition label := by
  have hindex : ColumnLabel.toIndex (String.ofList letters') true =
      ColumnLabel.toIndex (String.ofList letters) true := by
    refine ColumnLabel.toIndex_congr ?_ ?_ true
    · rw [String.toList_ofList]
      exact h.isAlpha
    · rw [String.toList_ofList, String.toList_ofList, hcase]
  simp only [toPosition, split?_eq_some_iff.mpr h, split?_eq_some_iff.mpr h', hindex, hrow]

theorem toPosition_of_not_spells (h : ∀ letters digits, ¬ Spells label.toList letters digits) :
    toPosition label = .error (.invalidReference label) := by
  simp only [toPosition, split?_eq_none_iff.mpr h]

theorem ofPosition_eq_ok {position : Position} {n : Nat}
    (h : (position.column + 1).toNat? = some n) :
    ofPosition position =
      .ok (String.ofList (ColumnLabel.letters (position.column + 1)) ++ (position.row + 1).text) := by
  rw [ofPosition, ColumnLabel.ofIndex_eq_ok h]

end CellLabel

/-- The label of a cell is the one that is written for its position. -/
theorem Cell.ofPosition_position {cell : Cell} (h : cell.column < Binary64.maxSafe) :
    CellLabel.ofPosition cell.position = .ok cell.label := by
  have hsafe : cell.column + 1 ≤ Binary64.bitBound := Binary64.le_bitBound_of_le_maxSafe h
  have hnext : Binary64.ofNat cell.column + 1 = .ofNat (cell.column + 1) :=
    Binary64.add_ofNat (by omega) Binary64.one_le_bitBound
  have hwhole : (cell.position.column + 1).toNat? = some (cell.column + 1) := by
    simp only [position, hnext]
    exact Binary64.toNat?_ofNat hsafe
  exact CellLabel.ofPosition_eq_ok hwhole

end Worksheet
