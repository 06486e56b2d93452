/-
Grids of numbers.

A number that is handed in is written as a text, and the evaluation reads the text.  The two agree
on the safe numbers, and every other number is written in a form that is refused, with a point, an
exponent or too many digits (`Literal.parse?_textChars_of_not_safe`).  So a grid of numbers comes
back as it was handed in, or fails at its first number that is not safe (`valuesOf_numbers`).
-/
import Worksheet.Proofs.Input.Exact
import Worksheet.Proofs.Formula.Literal
import Worksheet.Proofs.Diagnosis
import Worksheet.Proofs.Locality

namespace Worksheet

open Binary64

/-! ## Items -/

namespace Value

/-- A finite number or null. -/
inductive Numeric : Value → Prop
  | null : Numeric .null
  | number (negative : Bool) (units : Nat) (fits : Fits units) :
      Numeric (.number (.finite negative units fits))

/-- If the item is a number, it is a safe one. -/
def IsSafe (item : Value) : Prop := ∀ x, item = .number x → x.isSafe = true

/-- The number that an item stands for.  There is no negative zero, and null counts as zero. -/
def amount : Value → Binary64
  | .number x => if x = .zero true then 0 else x
  | _ => 0

theorem Numeric.isCell {item : Value} (h : Numeric item) : Sheet.IsCell item := by
  cases h with
  | null => exact ⟨_, .empty⟩
  | number negative units fits => exact ⟨_, .number negative units fits⟩

theorem amount_eq_ofInt {x : Binary64} {n : Int} (h : x.safeInt? = some n) :
    amount (.number x) = ofInt n := by
  by_cases hzero : x = .zero true
  · rw [hzero, zero, safeInt?_zero] at h
    rw [← Option.some.inj h]
    exact (if_pos hzero).trans Represents.zero.eq_ofInt
  · exact (if_neg hzero).trans (represents_of_safeInt? h hzero).eq_ofInt

end Value

namespace Sheet

/-! ## The items of a grid -/

section

variable {α : Type} {grid : List (List α)} {cell : Cell} {item : α}

def itemAt? (grid : List (List α)) (cell : Cell) : Option α :=
  (grid[cell.row]?).bind (·[cell.column]?)

theorem itemAt?_eq_some_iff : itemAt? grid cell = some item ↔
    ∃ row, grid[cell.row]? = some row ∧ row[cell.column]? = some item := Option.bind_eq_some_iff

theorem exists_itemAt? {row : List α} (hrow : row ∈ grid) (hitem : item ∈ row) :
    ∃ cell, itemAt? grid cell = some item := by
  obtain ⟨n, hn⟩ := List.mem_iff_getElem?.mp hrow
  obtain ⟨m, hm⟩ := List.mem_iff_getElem?.mp hitem
  exact ⟨⟨n, m⟩, itemAt?_eq_some_iff.mpr ⟨row, hn, hm⟩⟩

theorem mem_of_itemAt? (h : itemAt? grid cell = some item) : ∃ row ∈ grid, item ∈ row := by
  obtain ⟨row, hrow, hitem⟩ := itemAt?_eq_some_iff.mp h
  exact ⟨row, List.mem_of_getElem? hrow, List.mem_of_getElem? hitem⟩

end

variable {grid : List (List Value)} {sheet : Sheet} {cell : sheet.Member} {item : Value}

/-- The rows of the sheet are the texts of the grid. -/
abbrev SpelledBy (grid : List (List Value)) (sheet : Sheet) : Prop :=
  List.Forall₂ (List.Forall₂ Spelled) grid sheet.rows

theorem SpelledBy.exists_item (h : SpelledBy grid sheet) (cell : sheet.Member) :
    ∃ item, itemAt? grid cell.1 = some item ∧ Spelled item (sheet.text cell.1) := by
  have hrow : cell.1.row < sheet.rows.length := cell.2.1
  have hrow' : cell.1.row < grid.length := h.length_eq ▸ hrow
  have hitems := h.get hrow' hrow
  have hcolumn : cell.1.column < sheet.rows[cell.1.row].length :=
    column_lt_of_row (List.getElem?_eq_getElem hrow)
  have hcolumn' : cell.1.column < grid[cell.1.row].length := hitems.length_eq ▸ hcolumn
  have hspelled := hitems.get hcolumn' hcolumn
  have htext : sheet.text cell.1 = sheet.rows[cell.1.row][cell.1.column] := by
    simp [text, hrow, hcolumn]
  refine ⟨grid[cell.1.row][cell.1.column], ?_, ?_⟩
  · exact itemAt?_eq_some_iff.mpr
      ⟨_, List.getElem?_eq_getElem hrow', List.getElem?_eq_getElem hcolumn'⟩
  · rw [htext]
    exact hspelled

theorem SpelledBy.contains {cell : Cell} (h : SpelledBy grid sheet)
    (hitem : itemAt? grid cell = some item) : sheet.Contains cell := by
  obtain ⟨row, hrow, hcolumn⟩ := itemAt?_eq_some_iff.mp hitem
  obtain ⟨hlt, rfl⟩ := List.getElem?_eq_some_iff.mp hrow
  have hlt' : cell.row < sheet.rows.length := h.length_eq ▸ hlt
  refine ⟨hlt', ?_⟩
  have hwidth : grid[cell.row].length = sheet.columnCount :=
    (h.get hlt hlt').length_eq.trans (sheet.rectangular _ (List.getElem_mem hlt'))
  exact hwidth ▸ (List.getElem?_eq_some_iff.mp hcolumn).1

/-! ## One cell -/

/-- The text of a number is neither blank nor a formula. -/
theorem trim_textChars (negative : Bool) (units : Nat) (fits : Fits units) :
    ∃ c more, Text.trim (Binary64.finite negative units fits).textChars = c :: more ∧ c ≠ '=' := by
  obtain ⟨c, more, htext, hhead⟩ := head_textChars negative units fits
  have hplain : Text.isBlank c = false ∧ c ≠ '=' := by
    rcases hhead with rfl | hdigit
    · exact ⟨rfl, by decide⟩
    · refine ⟨Text.isBlank_of_isDigit hdigit, ?_⟩
      rintro rfl
      cases hdigit
  exact ⟨c, _, by rw [htext, Text.trim_cons hplain.1], hplain.2⟩

/-- What becomes of a cell that holds a number or nothing. -/
theorem naive_of_item (hnumeric : item.Numeric) (hspelled : Spelled item (sheet.text cell.1)) :
    (item.IsSafe ∧ sheet.naive [] cell = .ok item.amount) ∨
    ∃ x, item = .number x ∧ x.isSafe = false ∧ sheet.naive [] cell =
      .error (.invalidCellValue cell.1.label (cell.1.position.row + 1)
        (cell.1.position.column + 1) x.text) := by
  rw [naive_of_not_mem List.not_mem_nil]
  cases hnumeric with
  | null =>
    have htext : sheet.text cell.1 = "" := hspelled.eq_cellText
    have htrimmed : sheet.trimmed cell = [] := by
      rw [trimmed, htext]
      rfl
    exact .inl ⟨fun x hx => (by cases hx), interpret_eq_ok_iff.mpr (.inl ⟨htrimmed, rfl⟩)⟩
  | number negative units fits =>
    have htext : sheet.text cell.1 = (Binary64.finite negative units fits).text :=
      hspelled.eq_cellText
    have htrimmed : sheet.trimmed cell =
        Text.trim (Binary64.finite negative units fits).textChars := by
      rw [trimmed, htext, Binary64.text, String.toList_ofList]
    have hparse : Literal.parse? (sheet.trimmed cell) =
        Literal.parse? (Binary64.finite negative units fits).textChars := by
      rw [htrimmed, Literal.parse?_trim]
    obtain ⟨c, more, hhead, hequals⟩ := trim_textChars negative units fits
    rw [hhead] at htrimmed
    rw [interpret_of_number (htrimmed ▸ List.cons_ne_nil c more)
      fun rest heq => hequals (List.cons.inj (htrimmed.symm.trans heq)).1]
    cases hsafe : (Binary64.finite negative units fits).safeInt? with
    | some n =>
      refine .inl ⟨fun x hx => ?_, ?_⟩
      · rw [← Value.number.inj hx, isSafe, hsafe, Option.isSome_some]
      · rw [hparse, Literal.parse?_textChars hsafe, Value.amount_eq_ofInt hsafe]
    | none =>
      refine .inr ⟨_, rfl, ?_, ?_⟩
      · rw [isSafe, hsafe, Option.isSome_none]
      · rw [hparse, Literal.parse?_textChars_of_not_safe hsafe, htext]

/-! ## All cells -/

/-- The values of all cells of the rows that a value is read as. -/
def valuesOf (value : Value) (checker : Checker := .standard) : Except Fault Table :=
  (read value checker).bind fun sheet => valuesOfRows sheet.rows

theorem valuesOf_of_isGrid {checker : Checker} (lawful : checker.Lawful) {value : Value}
    (hgrid : IsGrid value grid) (heven : Even grid) :
    ∃ sheet, SpelledBy grid sheet ∧ valuesOf value checker = sheet.values := by
  obtain ⟨texts, hrows, hspelled⟩ := hgrid.exists_rowsOf lawful
  let sheet : Sheet := ⟨texts, heven.of_lengths (lengths_of_forall₂ hspelled)⟩
  have hkind : value.kind ≠ "string" := by
    rw [hgrid.value_eq, Value.kind]
    decide
  have hread : read value checker = .ok sheet := by
    rw [read_eq_ofValue hkind]
    exact ofValue_eq_ok_iff.mpr hrows
  refine ⟨sheet, hspelled, ?_⟩
  rw [valuesOf, hread]
  show valuesOfRows sheet.rows = sheet.values
  rw [valuesOfRows, ofRows_rows]

/-- The number is the first of the grid, row by row, that is not safe. -/
structure FirstUnsafe (grid : List (List Value)) (cell : Cell) (x : Binary64) : Prop where
  here : itemAt? grid cell = some (.number x)
  not_safe : x.isSafe = false
  before : ∀ other item, other.Precedes cell → itemAt? grid other = some item → item.IsSafe

theorem FirstUnsafe.unique {cell other : Cell} {x y : Binary64} (h : FirstUnsafe grid cell x)
    (ho : FirstUnsafe grid other y) : cell = other ∧ x = y := by
  have hsame : cell = other := by
    rcases Cell.precedes_or_eq_or_precedes cell other with hlt | heq | hgt
    · cases h.not_safe.symm.trans (ho.before cell _ hlt h.here x rfl)
    · exact heq
    · cases ho.not_safe.symm.trans (h.before other _ hgt ho.here y rfl)
  subst hsame
  exact ⟨rfl, Value.number.inj (Option.some.inj (h.here.symm.trans ho.here))⟩

theorem hasShape_amounts (h : SpelledBy grid sheet) :
    Table.HasShape sheet (grid.map (List.map Value.amount)) := by
  refine ⟨by rw [List.length_map]; exact h.length_eq, fun row hrow => ?_⟩
  obtain ⟨items, hitems, rfl⟩ := List.mem_map.mp hrow
  obtain ⟨n, hn, rfl⟩ := List.mem_iff_getElem.mp hitems
  have hn' : n < sheet.rows.length := h.length_eq ▸ hn
  have hwidth : grid[n].length = sheet.rows[n].length := (h.get hn hn').length_eq
  rw [List.length_map, hwidth]
  exact sheet.rectangular _ (List.getElem_mem hn')

theorem valueAt?_amounts (grid : List (List Value)) (cell : Cell) :
    Table.valueAt? (grid.map (List.map Value.amount)) cell =
      (itemAt? grid cell).map Value.amount := by
  rw [Table.valueAt?, itemAt?, List.getElem?_map]
  cases grid[cell.row]? with
  | none => rfl
  | some row => exact List.getElem?_map

section

variable (h : SpelledBy grid sheet) (hnumeric : ∀ row ∈ grid, ∀ item ∈ row, item.Numeric)

include h hnumeric

/-- What becomes of the item in a cell. -/
theorem naive_of_itemAt? (hitem : itemAt? grid cell.1 = some item) :
    (item.IsSafe ∧ sheet.naive [] cell = .ok item.amount) ∨
    ∃ x, item = .number x ∧ x.isSafe = false ∧ sheet.naive [] cell =
      .error (.invalidCellValue cell.1.label (cell.1.position.row + 1)
        (cell.1.position.column + 1) x.text) := by
  obtain ⟨other, hother, hspelled⟩ := h.exists_item cell
  rw [Option.some.inj (hother.symm.trans hitem)] at hspelled
  obtain ⟨row, hrow, hmem⟩ := mem_of_itemAt? hitem
  exact naive_of_item (hnumeric row hrow item hmem) hspelled

/-- An item whose cell has a value is safe. -/
theorem isSafe_of_naive_eq_ok (hitem : itemAt? grid cell.1 = some item) {x : Binary64}
    (hvalue : sheet.naive [] cell = .ok x) : item.IsSafe := by
  rcases naive_of_itemAt? h hnumeric hitem with ⟨hsafe, -⟩ | ⟨y, -, -, hfault⟩
  · exact hsafe
  · rw [hvalue] at hfault
    cases hfault

theorem isNaiveTable_amounts (hsafe : ∀ row ∈ grid, ∀ item ∈ row, item.IsSafe) :
    sheet.IsNaiveTable (grid.map (List.map Value.amount)) := by
  refine ⟨hasShape_amounts h, fun cell => ?_⟩
  obtain ⟨item, hitem, -⟩ := h.exists_item cell
  obtain ⟨row, hrow, hmem⟩ := mem_of_itemAt? hitem
  rcases naive_of_itemAt? h hnumeric hitem with ⟨-, hvalue⟩ | ⟨x, rfl, hnot, -⟩
  · exact ⟨item.amount, hvalue, by rw [valueAt?_amounts, hitem, Option.map_some]⟩
  · rw [hsafe row hrow _ hmem x rfl] at hnot
    cases hnot

/-- An evaluation that fails does so at the first number that is not safe. -/
theorem exists_firstUnsafe {fault : Fault} (hfault : sheet.IsFirstNaiveFault fault) :
    ∃ cell x, FirstUnsafe grid cell x ∧ fault =
      .invalidCellValue cell.label (cell.position.row + 1) (cell.position.column + 1) x.text := by
  obtain ⟨cell, hnaive, hbefore⟩ := hfault
  obtain ⟨item, hitem, -⟩ := h.exists_item cell
  rcases naive_of_itemAt? h hnumeric hitem with ⟨-, hvalue⟩ | ⟨x, rfl, hnot, hreported⟩
  · rw [hnaive] at hvalue
    cases hvalue
  · rw [hnaive] at hreported
    refine ⟨cell.1, x, ⟨hitem, hnot, fun other item hlt hother => ?_⟩, Except.error.inj hreported⟩
    obtain ⟨y, hy⟩ := hbefore ⟨other, h.contains hother⟩ hlt
    exact isSafe_of_naive_eq_ok h hnumeric hother hy

end

/-- Numbers that are all safe come back as they are, with zero for null and for a negative zero.
Otherwise the first number, row by row, that is not safe is reported with its text. -/
theorem valuesOf_numbers (checker : Checker) (lawful : checker.Lawful)
    (grid : List (List Value)) (heven : Even grid)
    (hnumeric : ∀ row ∈ grid, ∀ item ∈ row, item.Numeric) :
    ((∀ row ∈ grid, ∀ item ∈ row, item.IsSafe) →
      valuesOf (.list (grid.map .list)) checker = .ok (grid.map (List.map Value.amount))) ∧
    ((¬ ∀ row ∈ grid, ∀ item ∈ row, item.IsSafe) →
      ∃ cell x, FirstUnsafe grid cell x ∧
        valuesOf (.list (grid.map .list)) checker = .error (.invalidCellValue cell.label
          (cell.position.row + 1) (cell.position.column + 1) x.text) ∧
        (cell.row < maxSafe → cell.column < maxSafe →
          cell.Named cell.label (cell.position.row + 1) (cell.position.column + 1))) := by
  have hgrid : IsGrid (.list (grid.map .list)) grid :=
    ⟨rfl, fun row hrow item hitem => (hnumeric row hrow item hitem).isCell⟩
  obtain ⟨sheet, hspelled, hvalues⟩ := valuesOf_of_isGrid lawful hgrid heven
  rw [hvalues]
  refine ⟨fun hsafe => ?_, fun hunsafe => ?_⟩
  · exact values_eq_ok_iff.mpr (isNaiveTable_amounts hspelled hnumeric hsafe)
  · rcases evaluateAll_cases (Progress.atRest_fresh sheet) with
      ⟨table, -, htable⟩ | ⟨fault, hanswer, hfault⟩
    · refine absurd (fun row hrow item hmem => ?_) hunsafe
      obtain ⟨cell, hitem⟩ := exists_itemAt? hrow hmem
      obtain ⟨x, hx, -⟩ := htable.2 ⟨cell, hspelled.contains hitem⟩
      exact isSafe_of_naive_eq_ok hspelled hnumeric hitem hx
    · obtain ⟨cell, x, hfirst, rfl⟩ := exists_firstUnsafe hspelled hnumeric hfault
      exact ⟨cell, x, hfirst, hanswer, Cell.named⟩

/-- Null and a negative zero come back as zero; of a number that is too large and a fraction behind
it, the first is reported. -/
theorem valuesOf_numbers_two_rows :
    let large : Binary64 := .finite false (powTwo (53 + fractionBits)) (by decide +kernel)
    let fraction : Binary64 := .finite false (3 * powTwo (fractionBits - 1)) (by decide +kernel)
    let zeros : List Value := [.null, .number (.zero true)]
    let others : List Value := [.number large, .number fraction]
    Checker.standard.Lawful ∧ valuesOf (.list [.list zeros]) = .ok [[0, 0]] ∧
      fraction.text = "1.5" ∧ fraction.isSafe = false ∧
      valuesOf (.list [.list zeros, .list others]) =
        .error (.invalidCellValue "A2" 2 1 "9007199254740992") := by
  intro large fraction zeros others
  have hzeros : ∀ item ∈ zeros, item.Numeric ∧ item.IsSafe := by
    refine List.forall_mem_cons.mpr ⟨⟨.null, fun x hx => (by cases hx)⟩,
      List.forall_mem_singleton.mpr ⟨.number true 0 fits_zero, fun x hx => ?_⟩⟩
    rw [← Value.number.inj hx]
    decide +kernel
  have hothers : ∀ item ∈ others, item.Numeric :=
    List.forall_mem_cons.mpr ⟨.number _ _ _, List.forall_mem_singleton.mpr (.number _ _ _)⟩
  have hlarge : large.isSafe = false := by decide +kernel
  have lawful := Checker.lawful_standard
  refine ⟨lawful, ?_, by decide +kernel, by decide +kernel, ?_⟩
  · have hamounts : [zeros].map (List.map Value.amount) = [[0, 0]] := by decide +kernel
    rw [← hamounts]
    exact (valuesOf_numbers .standard lawful [zeros] (List.forall_mem_singleton.mpr rfl)
      (List.forall_mem_singleton.mpr fun item hitem => (hzeros item hitem).1)).1
      (List.forall_mem_singleton.mpr fun item hitem => (hzeros item hitem).2)
  · have hfirst : FirstUnsafe [zeros, others] ⟨1, 0⟩ large := by
      refine ⟨rfl, hlarge, fun other item hlt hitem => (hzeros item ?_).2⟩
      obtain ⟨row, hrow, hcolumn⟩ := itemAt?_eq_some_iff.mp hitem
      have hbefore : other.row < 1 ∨ other.row = 1 ∧ other.column < 0 := hlt
      have hzero : other.row = 0 := by omega
      rw [hzero] at hrow
      rw [Option.some.inj hrow]
      exact List.mem_of_getElem? hcolumn
    obtain ⟨cell, x, hfound, hanswer, -⟩ := (valuesOf_numbers .standard lawful [zeros, others]
      (List.forall_mem_cons.mpr ⟨rfl, List.forall_mem_singleton.mpr rfl⟩)
      (List.forall_mem_cons.mpr ⟨fun item hitem => (hzeros item hitem).1,
        List.forall_mem_singleton.mpr hothers⟩)).2 fun hsafe => by
          have hmem : .number large ∈ others := List.mem_cons_self
          cases hlarge.symm.trans (hsafe others (by simp) _ hmem large rfl)
    obtain ⟨rfl, rfl⟩ := hfound.unique hfirst
    have hreport : Fault.invalidCellValue (Cell.label ⟨1, 0⟩) ((Cell.position ⟨1, 0⟩).row + 1)
        ((Cell.position ⟨1, 0⟩).column + 1) large.text =
          .invalidCellValue "A2" 2 1 "9007199254740992" := by decide +kernel
    exact hanswer.trans (congrArg Except.error hreport)

end Sheet
end Worksheet
