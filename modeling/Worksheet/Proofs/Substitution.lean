/-
Values written in the place of formulas.

The text of its value may stand in any cell of a table, and the table stays what it is
(`valuesOfRows_substitute`).  A cell that holds its value refers to nothing, so fewer references are
followed than before.  Those that are left lead to the same values, since a value is the same on
every path.
-/
import Worksheet.Proofs.Lockstep
import Worksheet.Proofs.Formula.Literal

namespace Worksheet

open Binary64

namespace Table

/-- The decimal texts of the values. -/
def texts (table : Table) : List (List String) := table.map (List.map Binary64.text)

/-- Rows of texts, where each chosen cell holds the decimal text of its value in the table. -/
def substitute (table : Table) (chosen : Cell → Bool) (rows : List (List String)) :
    List (List String) :=
  rows.mapIdx fun row texts => texts.mapIdx fun column text =>
    if chosen ⟨row, column⟩ then ((table.valueAt? ⟨row, column⟩).map Binary64.text).getD text
    else text

theorem lengths_substitute (table : Table) (chosen : Cell → Bool) (rows : List (List String)) :
    rows.map List.length = (table.substitute chosen rows).map List.length := by
  refine List.ext_getElem (by simp [substitute]) fun row hrow hrow' => ?_
  simp [substitute]

/-- With a value in every cell, nothing is left of the rows. -/
theorem substitute_all {sheet : Sheet} {table : Table} (h : table.HasShape sheet) :
    table.substitute (fun _ => true) sheet.rows = table.texts := by
  have hwidth : ∀ row (hrow : row < sheet.rows.length) (hrow' : row < table.length),
      sheet.rows[row].length = table[row].length := by
    intro row hrow hrow'
    rw [sheet.rectangular _ (List.getElem_mem hrow), h.2 _ (List.getElem_mem hrow')]
    rfl
  refine List.ext_getElem ?_ fun row hrow hrow' => ?_
  · rw [substitute, texts, List.length_mapIdx, List.length_map]
    exact h.1.symm
  · rw [substitute, List.length_mapIdx] at hrow
    rw [texts, List.length_map] at hrow'
    simp only [substitute, texts, List.getElem_mapIdx, List.getElem_map]
    refine List.ext_getElem ?_ fun column hcolumn hcolumn' => ?_
    · rw [List.length_mapIdx, List.length_map, hwidth row hrow hrow']
    · rw [List.length_map] at hcolumn'
      simp [valueAt?, hrow', hcolumn']

end Table

namespace Sheet

variable {sheet other : Sheet} {cell : sheet.Member} {cell' : other.Member} {table : Table}
  {chosen : Cell → Bool}

theorem text_substitute (hrows : other.rows = table.substitute chosen sheet.rows)
    (cell : sheet.Member) : other.text cell.1 =
      if chosen cell.1 then ((table.valueAt? cell.1).map Binary64.text).getD (sheet.text cell.1)
      else sheet.text cell.1 := by
  obtain ⟨row, hrow⟩ := sheet.exists_row cell
  have hcolumn : cell.1.column < row.length := column_lt_of_row hrow
  rw [text, text, hrows, Table.substitute, List.getElem?_mapIdx, hrow, Option.map_some,
    Option.getD_some, Option.getD_some, List.getElem?_mapIdx, List.getElem?_eq_getElem hcolumn,
    Option.map_some, Option.getD_some, Option.getD_some]

/-- A cell that holds the text of a whole number has that value. -/
theorem interpret_of_text {x : Binary64} {n : Int} (hexact : Represents x n)
    (htext : other.text cell'.1 = x.text) (g : other.Member → Outcome) :
    other.interpret g cell' = .ok x := by
  have hsafe : x.safeInt? = some n := hexact.safeInt?_eq
  have htrimmed : other.trimmed cell' = x.textChars := by
    rw [trimmed, htext, Binary64.text, String.toList_ofList, textChars_of_safe hsafe,
      Literal.trim_intText]
  refine interpret_eq_ok_iff.mpr (.inr (.inl ?_))
  rw [htrimmed, Literal.parse?_textChars hsafe, hexact.eq_ofInt]

theorem naive_substitute (htable : sheet.IsNaiveTable table)
    (hrows : other.rows = table.substitute chosen sheet.rows) (hval : cell'.1 = cell.1) :
    CarriesOver (sheet.naive [] cell) (other.naive [] cell') := by
  have hsize : sheet.SameSize other :=
    sameSize_of_lengths (hrows ▸ table.lengths_substitute chosen sheet.rows)
  refine naive_related biUnique_samePlace (fun _ _ _ x hx => (by cases hx))
    (fun path cell cell' g hoff hval ih x hx => ?_) .nil hval
  have htext := text_substitute hrows cell
  cases hchosen : chosen cell.1 with
  | true =>
    have hnaive : sheet.naive path cell = .ok x := by rw [naive_of_not_mem hoff, hx]
    have hentry : table.valueAt? cell.1 = some x := by
      obtain ⟨y, hy, hentry⟩ := htable.2 cell
      rw [naive_nil_eq_ok hnaive] at hy
      rw [hentry, Except.ok.inj hy]
    rw [hchosen, if_pos rfl, hentry] at htext
    exact interpret_of_text (naive_exact hnaive).1 (hval ▸ htext) g
  | false =>
    rw [hchosen, if_neg Bool.false_ne_true] at htext
    rw [interpret_eq_of_agree hval htext (fun target hr => ?_) (hx ▸ comparable_ok x), hx]
    -- The cells that are referred to have values, for the reading succeeds.
    obtain ⟨y, hy⟩ := eq_ok_of_refers hx hr
    refine ⟨⟨target.1, hsize.contains_iff.mpr target.2⟩, rfl, fun _ => ?_⟩
    rw [ih target _ rfl y hy, hy]

theorem valuesOfRows_eq_ok_iff {rows : List (List String)} : valuesOfRows rows = .ok table ↔
    ∃ sheet : Sheet, sheet.rows = rows ∧ sheet.IsNaiveTable table := by
  constructor
  · intro h
    unfold valuesOfRows at h
    split at h
    · rename_i sheet hsheet
      exact ⟨sheet, ofRows_eq_ok_iff.mp hsheet, values_eq_ok_iff.mp h⟩
    · cases h
  · intro h
    obtain ⟨sheet, hrows, htable⟩ := h
    rw [valuesOfRows, ofRows_eq_ok_iff.mpr hrows]
    exact values_eq_ok_iff.mpr htable

/-- Any cells of rows that have a table may hold the texts of their values instead, and the rows
have the same table.  In particular the texts of a table have that table. -/
theorem valuesOfRows_substitute {rows : List (List String)}
    (h : valuesOfRows rows = .ok table) :
    (∀ chosen, valuesOfRows (table.substitute chosen rows) = .ok table) ∧
      valuesOfRows table.texts = .ok table := by
  obtain ⟨sheet, rfl, htable⟩ := valuesOfRows_eq_ok_iff.mp h
  have hsubstitute : ∀ chosen, valuesOfRows (table.substitute chosen sheet.rows) = .ok table := by
    intro chosen
    have hlengths := table.lengths_substitute chosen sheet.rows
    have heven : Even sheet.rows := sheet.rectangular
    exact valuesOfRows_eq_ok_iff.mpr ⟨⟨_, heven.of_lengths hlengths⟩, rfl,
      htable.of_values (sameSize_of_lengths hlengths) fun _ _ => naive_substitute htable rfl⟩
  refine ⟨hsubstitute, ?_⟩
  rw [← Table.substitute_all htable.1]
  exact hsubstitute fun _ => true

/-- A chain with extreme and negative values, of which some cells are replaced. -/
theorem valuesOfRows_substitute_chain :
    let rows := [["=B1+1", " = a2 - 1 "], ["-9007199254740990", ""]]
    let table : Table := [[.ofInt (-9007199254740990), .ofInt (-9007199254740991)],
      [.ofInt (-9007199254740990), 0]]
    let chosen := fun cell : Cell => decide (cell.row = cell.column)
    valuesOfRows rows = .ok table ∧
      table.substitute chosen rows =
        [["-9007199254740990", " = a2 - 1 "], ["-9007199254740990", "0"]] ∧
      valuesOfRows (table.substitute chosen rows) = .ok table := by
  intro rows table chosen
  have hrows : valuesOfRows rows = .ok table := by decide +kernel
  exact ⟨hrows, by decide +kernel, (valuesOfRows_substitute hrows).1 chosen⟩

end Sheet
end Worksheet
