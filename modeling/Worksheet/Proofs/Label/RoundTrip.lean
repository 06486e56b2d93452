/-
Cell labels and positions.

A label that is written for a position reads back as that position, and a label that is read is
written again in capitals and without zeros in front of its row (`ofPosition_toPosition_inverse`).
Both hold as long as the row and the column, counted from one, are safe numbers.  A letter is no
digit, so a text is cut in one place at most, and on either side of it there is a numeral.
-/
import Worksheet.Proofs.Label.Cell
import Worksheet.Proofs.Decimal.Numeral
import Worksheet.Proofs.Binary64.Shortest

namespace Worksheet

open Binary64

/-- The position is a row and a column in whole numbers, and counted from one they are safe. -/
structure Position.Counts (position : Position) (row column : Nat) : Prop where
  row_eq : position.row.toNat? = some row
  column_eq : position.column.toNat? = some column
  row_lt : row < maxSafe
  column_lt : column < maxSafe

theorem Position.counts_ofNat {row column : Nat} (hrow : row < maxSafe)
    (hcolumn : column < maxSafe) : Position.Counts ⟨.ofNat row, .ofNat column⟩ row column := by
  refine ⟨?_, ?_, hrow, hcolumn⟩
  · dsimp only
    exact toNat?_ofNat_of_safe (Nat.le_of_lt hrow)
  · dsimp only
    exact toNat?_ofNat_of_safe (Nat.le_of_lt hcolumn)

/-! ## Numerals -/

theorem Binary64.textChars_ofNat {n : Nat} (h : n ≤ maxSafe) :
    (ofNat n).textChars = Decimal.digitsOf n := by
  have hexact : Represents (ofNat n) n := ⟨ofNat_eq_ofInt n, by rwa [Int.natAbs_natCast]⟩
  rw [textChars_of_safe hexact.safeInt?_eq, intText, if_neg (by omega), Int.natAbs_natCast]

namespace ColumnLabel

theorem value_pos {letters : List Char} (hne : letters ≠ [])
    (h : ∀ c ∈ letters, c.isAlpha = true) : 0 < value letters := by
  obtain ⟨front, c, rfl⟩ := (List.eq_nil_or_concat letters).resolve_left hne
  have hc : 1 ≤ letterValue c := (letterValue_range (h c (by simp))).1
  rw [List.concat_eq_append, value_concat]
  omega

/-- The letters of the number of a label are the label in capitals. -/
theorem letters_value {label : List Char} (h : ∀ c ∈ label, c.isAlpha = true)
    (hsafe : value label ≤ maxSafe) : letters (.ofNat (value label)) = label.map Char.toUpper := by
  obtain ⟨hupper, hvalue⟩ := letters_spec (toNat?_ofNat_of_safe hsafe) hsafe
  refine value_injective hupper (fun c hc => ?_) (hvalue.trans (value_map_toUpper h).symm)
  obtain ⟨d, hd, rfl⟩ := List.mem_map.mp hc
  exact (toUpper_of_isAlpha (h d hd)).1

end ColumnLabel

namespace CellLabel

/-! ## Writing -/

variable {position : Position} {row column : Nat}

/-- The label of a row and a column that are counted from zero. -/
def written (row column : Nat) : List Char :=
  ColumnLabel.letters (.ofNat (column + 1)) ++ Decimal.digitsOf (row + 1)

theorem ofPosition_of_counts (h : position.Counts row column) :
    ofPosition position = .ok (String.ofList (written row column)) := by
  have hrow : row + 1 ≤ maxSafe := h.row_lt
  have hcolumn : column + 1 ≤ maxSafe := h.column_lt
  have hnext : position.row + 1 = ofNat (row + 1) :=
    add_one_of_toNat? h.row_eq (le_bitBound_of_le_maxSafe hrow)
  have hnext' : position.column + 1 = ofNat (column + 1) :=
    add_one_of_toNat? h.column_eq (le_bitBound_of_le_maxSafe hcolumn)
  have hwhole : (position.column + 1).toNat? = some (column + 1) := by
    rw [hnext']
    exact toNat?_ofNat_of_safe hcolumn
  rw [ofPosition_eq_ok hwhole, hnext, hnext', text, textChars_ofNat hrow, ← String.ofList_append]
  rfl

/-- What is written are the capitals of the column and the digits of the row. -/
theorem written_spells (hcolumn : column < maxSafe) :
    Spells (written row column) (ColumnLabel.letters (.ofNat (column + 1)))
      (Decimal.digitsOf (row + 1)) := by
  obtain ⟨hupper, hvalue⟩ := ColumnLabel.letters_spec (toNat?_ofNat_of_safe hcolumn) hcolumn
  refine ⟨rfl, fun hnil => ?_, fun c hc => ColumnLabel.isAlpha_of_isUpper (hupper c hc),
    Nat.toDigits_ne_nil, Decimal.digits_digitsOf _⟩
  rw [hnil, ColumnLabel.value_nil] at hvalue
  omega

/-! ## Reading -/

/-- A label whose exact numbers are safe is read as the position of these numbers. -/
theorem toPosition_of_values {label : String} {letters digits : List Char}
    (h : Spells label.toList letters digits) (hrow : Decimal.value digits = row + 1)
    (hcolumn : ColumnLabel.value letters = column + 1) (hrow_lt : row < maxSafe)
    (hcolumn_lt : column < maxSafe) :
    toPosition label = .ok ⟨.ofNat row, .ofNat column⟩ := by
  obtain ⟨x, hposition, hx⟩ := toPosition_of_spells h
  rw [hcolumn] at hx
  rw [hposition, hrow, hx.exact hcolumn_lt, ofNat_succ_sub_one (le_bitBound_of_le_maxSafe hrow_lt),
    ofNat_succ_sub_one (le_bitBound_of_le_maxSafe hcolumn_lt)]

theorem toPosition_written (hrow : row < maxSafe) (hcolumn : column < maxSafe) :
    isLabel (String.ofList (written row column)) = true ∧
      toPosition (String.ofList (written row column)) = .ok ⟨.ofNat row, .ofNat column⟩ := by
  have hspells : Spells (String.ofList (written row column)).toList
      (ColumnLabel.letters (.ofNat (column + 1))) (Decimal.digitsOf (row + 1)) := by
    rw [String.toList_ofList]
    exact written_spells hcolumn
  have hvalue := (ColumnLabel.letters_spec (toNat?_ofNat_of_safe hcolumn) hcolumn).2
  exact ⟨isLabel_iff.mpr ⟨_, _, hspells⟩,
    toPosition_of_values hspells (Decimal.value_digitsOf _) hvalue hrow hcolumn⟩

/-! ## Both -/

/-- Reading a label and writing it again leaves capitals and drops zeros. -/
theorem ofPosition_toPosition {label : String} {letters digits : List Char}
    (h : Spells label.toList letters digits) (hletters : ColumnLabel.value letters ≤ maxSafe)
    (hpos : 1 ≤ Decimal.value digits) (hdigits : Decimal.value digits ≤ maxSafe) :
    ∃ position, toPosition label = .ok position ∧ ofPosition position =
      .ok (String.ofList (letters.map Char.toUpper ++ Decimal.dropZeros digits)) := by
  have hleast := ColumnLabel.value_pos h.letters_ne_nil h.isAlpha
  obtain ⟨row, hrow⟩ : ∃ row, Decimal.value digits = row + 1 := ⟨_, (Nat.sub_add_cancel hpos).symm⟩
  obtain ⟨column, hcolumn⟩ : ∃ column, ColumnLabel.value letters = column + 1 :=
    ⟨_, (Nat.sub_add_cancel hleast).symm⟩
  have hrow_lt : row < maxSafe := by omega
  have hcolumn_lt : column < maxSafe := by omega
  refine ⟨_, toPosition_of_values h hrow hcolumn hrow_lt hcolumn_lt, ?_⟩
  rw [ofPosition_of_counts (Position.counts_ofNat hrow_lt hcolumn_lt), written, ← hcolumn, ← hrow,
    ColumnLabel.letters_value h.isAlpha hletters, Decimal.digitsOf_value h.isDigit hpos]

/-- Each position has a label that reads back as the position, each label is written again in
capitals and without zeros in front of its row, and two positions never share a label. -/
theorem ofPosition_toPosition_inverse :
    (∀ position row column, Position.Counts position row column →
      ∃ label, ofPosition position = .ok label ∧ isLabel label = true ∧
        toPosition label = .ok ⟨.ofNat row, .ofNat column⟩) ∧
    (∀ label letters digits, Spells label.toList letters digits →
      ColumnLabel.value letters ≤ maxSafe → 1 ≤ Decimal.value digits →
      Decimal.value digits ≤ maxSafe →
      ∃ position, toPosition label = .ok position ∧ ofPosition position =
        .ok (String.ofList (letters.map Char.toUpper ++ Decimal.dropZeros digits))) ∧
    ∀ position other row column row' column', Position.Counts position row column →
      Position.Counts other row' column' → ofPosition position = ofPosition other →
      row = row' ∧ column = column' := by
  refine ⟨fun position row column h => ?_, fun label letters digits => ofPosition_toPosition, ?_⟩
  · exact ⟨_, ofPosition_of_counts h, toPosition_written h.row_lt h.column_lt⟩
  · intro position other row column row' column' h ho heq
    rw [ofPosition_of_counts h, ofPosition_of_counts ho] at heq
    -- One label is read as both positions.
    have hread := (toPosition_written h.row_lt h.column_lt).2
    rw [Except.ok.inj heq, (toPosition_written ho.row_lt ho.column_lt).2] at hread
    have hposition := Except.ok.inj hread
    have hcounts := Position.counts_ofNat h.row_lt h.column_lt
    rw [← hposition] at hcounts
    have hcounts' := Position.counts_ofNat ho.row_lt ho.column_lt
    exact ⟨Option.some.inj (hcounts.row_eq.symm.trans hcounts'.row_eq),
      Option.some.inj (hcounts.column_eq.symm.trans hcounts'.column_eq)⟩

/-- The label of the last row and column that count as safe numbers, and one that is no capital. -/
example : ofPosition ⟨.ofNat (maxSafe - 1), .ofNat (maxSafe - 1)⟩ =
      .ok "BKTXHSOGHKKE9007199254740991" ∧
    (toPosition "ab007").bind ofPosition = .ok "AB7" := by decide +kernel

end CellLabel
end Worksheet
