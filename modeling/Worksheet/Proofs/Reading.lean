/-
What a cell says, read off its text.

`Sheet.interpret` reads a cell as a caller would: the text is trimmed, a blank cell is zero,
a formula is parsed and its operands are read from left to right, and the range of a result
is looked at last.  Where an operand names a cell, the value is asked of a function, so that
one reading serves every way of finding values.  The reading depends on that function only at
the cells that the text refers to (`interpret_congr`), and it succeeds exactly in the four
ways that `interpret_eq_ok_iff` lists.
-/
import Worksheet.Evaluation.Request
import Worksheet.Proofs.Text.Trim
import Mathlib.Logic.Relation

namespace Worksheet
namespace Sheet

/-! ## The cell at a position -/

theorem cellAt?_eq_map (sheet : Sheet) (position : Position) :
    sheet.cellAt? position = (sheet.memberAt? position).map Subtype.val := by
  unfold memberAt?
  split <;> simp_all

theorem memberAt?_eq_none {sheet : Sheet} {position : Position} (h : sheet.memberAt? position = none) :
    sheet.cellAt? position = none := by rw [cellAt?_eq_map, h, Option.map_none]

theorem memberAt?_eq_some {sheet : Sheet} {position : Position} {target : sheet.Member}
    (h : sheet.memberAt? position = some target) : sheet.cellAt? position = some target.1 := by
  rw [cellAt?_eq_map, h, Option.map_some]

theorem cellAt?_eq_some_iff {sheet : Sheet} {position : Position} {cell : Cell} :
    sheet.cellAt? position = some cell ↔ position.row.toNat? = some cell.row ∧
      position.column.toNat? = some cell.column ∧ sheet.Contains cell := by
  unfold cellAt?
  split
  · rename_i row column hrow hcolumn
    rw [hrow, hcolumn, Option.some.injEq, Option.some.injEq]
    by_cases hin : sheet.Contains ⟨row, column⟩
    · rw [if_pos hin, Option.some.injEq]
      constructor
      · rintro rfl
        exact ⟨rfl, rfl, hin⟩
      · rintro ⟨rfl, rfl, -⟩
        rfl
    · rw [if_neg hin]
      constructor
      · intro hnone
        cases hnone
      · rintro ⟨rfl, rfl, hin'⟩
        exact absurd hin' hin
  · rename_i hnot
    constructor
    · intro hnone
      cases hnone
    · rintro ⟨hrow, hcolumn, -⟩
      exact absurd hcolumn (hnot _ _ hrow)

theorem memberAt?_eq_some_iff {sheet : Sheet} {position : Position} {cell : sheet.Member} :
    sheet.memberAt? position = some cell ↔
      position.row.toNat? = some cell.1.row ∧ position.column.toNat? = some cell.1.column := by
  have hcell : sheet.memberAt? position = some cell ↔ sheet.cellAt? position = some cell.1 := by
    rw [cellAt?_eq_map, Option.map_eq_some_iff]
    constructor
    · intro hfound
      exact ⟨cell, hfound, rfl⟩
    · rintro ⟨found, hfound, heq⟩
      rw [hfound, Subtype.ext heq]
  rw [hcell, cellAt?_eq_some_iff]
  exact ⟨fun h => ⟨h.1, h.2.1⟩, fun h => ⟨h.1, h.2, cell.2⟩⟩

/-! ## The parts of a text -/

def trimmed (sheet : Sheet) (cell : sheet.Member) : List Char :=
  Text.trim (sheet.text cell.1).toList

/-- The text of a cell is an equals sign and a text that parses as the formula. -/
def HasFormula (sheet : Sheet) (cell : sheet.Member) (formula : Formula) : Prop :=
  ∃ rest, sheet.trimmed cell = '=' :: rest ∧
    Formula.parse (String.ofList (Text.trim rest)) = .ok formula

/-- An operand of the cell's formula is a reference to the position. -/
def Mentions (sheet : Sheet) (cell : sheet.Member) (position : Position) : Prop :=
  ∃ formula operand label, sheet.HasFormula cell formula ∧ operand ∈ formula.operands ∧
    Term.parse operand.text = .ok (.reference label position)

/-- The operand is a reference to a cell of the sheet. -/
def Names (sheet : Sheet) (operand : Operand) (target : sheet.Member) : Prop :=
  ∃ label position, Term.parse operand.text = .ok (.reference label position) ∧
    sheet.memberAt? position = some target

/-- The formula of a cell refers to another cell, or to the cell itself. -/
def Refers (sheet : Sheet) (cell target : sheet.Member) : Prop :=
  ∃ formula operand, sheet.HasFormula cell formula ∧ operand ∈ formula.operands ∧
    sheet.Names operand target

/-- The text of a cell is blank, a whole number, or a formula whose operands are terms. -/
def WellFormed (sheet : Sheet) (cell : sheet.Member) : Prop :=
  sheet.trimmed cell = [] ∨ (Literal.parse? (sheet.trimmed cell)).isSome ∨
    ∃ formula, sheet.HasFormula cell formula ∧
      ∀ operand ∈ formula.operands, ∃ term, Term.parse operand.text = .ok term

theorem hasFormula_unique {sheet : Sheet} {cell : sheet.Member} {formula other : Formula}
    (h : sheet.HasFormula cell formula) (ho : sheet.HasFormula cell other) :
    formula = other := by
  obtain ⟨rest, htext, hparse⟩ := h
  obtain ⟨rest', htext', hparse'⟩ := ho
  rw [htext] at htext'
  cases htext'
  rw [hparse] at hparse'
  exact Except.ok.inj hparse'

/-! ## Reading with given values -/

def interpretOperand (sheet : Sheet) (value : sheet.Member → Outcome) (operand : Operand) :
    Outcome :=
  match Term.parse operand.text with
  | .error fault => .error fault
  | .ok (.literal x) => .ok (operand.sign.apply x)
  | .ok (.reference label position) =>
    match sheet.memberAt? position with
    | none => .error (sheet.outOfRange label)
    | some target =>
      match value target with
      | .error fault => .error fault
      | .ok x => .ok (operand.sign.apply x)

/-- The value of a formula; its text is for the report about a result that is not safe. -/
def interpretFormula (sheet : Sheet) (value : sheet.Member → Outcome) (text : String) :
    Formula → Outcome
  | .single operand => sheet.interpretOperand value operand
  | .binary left operator right =>
    match sheet.interpretOperand value left with
    | .error fault => .error fault
    | .ok x =>
      match sheet.interpretOperand value right with
      | .error fault => .error fault
      | .ok y => combined text operator x y

/-- The value of a cell, where `value` gives the values of the cells that it refers to. -/
def interpret (sheet : Sheet) (value : sheet.Member → Outcome) (cell : sheet.Member) : Outcome :=
  match sheet.trimmed cell with
  | [] => .ok 0
  | '=' :: rest =>
    match Formula.parse (String.ofList (Text.trim rest)) with
    | .error fault => .error fault
    | .ok formula => sheet.interpretFormula value (String.ofList (Text.trim rest)) formula
  | text =>
    match Literal.parse? text with
    | some x => .ok x
    | none =>
      .error (.invalidCellValue cell.1.label (cell.1.position.row + 1) (cell.1.position.column + 1)
        (sheet.text cell.1))

/-- A text that is neither blank nor a formula is a number or a fault. -/
theorem interpret_of_number {sheet : Sheet} {f : sheet.Member → Outcome} {cell : sheet.Member}
    (hne : sheet.trimmed cell ≠ [])
    (hform : ∀ rest, sheet.trimmed cell ≠ '=' :: rest) :
    sheet.interpret f cell =
      match Literal.parse? (sheet.trimmed cell) with
      | some x => .ok x
      | none => .error (.invalidCellValue cell.1.label (cell.1.position.row + 1)
          (cell.1.position.column + 1) (sheet.text cell.1)) := by
  unfold interpret
  split
  · rename_i hnil
    exact absurd hnil hne
  · rename_i rest hrest
    exact absurd hrest (hform rest)
  · cases Literal.parse? (sheet.trimmed cell) <;> rfl

/-! ## What the reading depends on -/

theorem interpretOperand_congr {sheet : Sheet} {f g : sheet.Member → Outcome} {operand : Operand}
    (h : ∀ target, sheet.Names operand target → f target = g target) :
    sheet.interpretOperand f operand = sheet.interpretOperand g operand := by
  unfold interpretOperand
  split
  · rfl
  · rfl
  · rename_i label position hparse
    split
    · rfl
    · rename_i target hfound
      rw [h target ⟨label, position, hparse, hfound⟩]

theorem interpretFormula_congr {sheet : Sheet} {f g : sheet.Member → Outcome} {text : String}
    {formula : Formula}
    (h : ∀ operand ∈ formula.operands, ∀ target, sheet.Names operand target →
      f target = g target) :
    sheet.interpretFormula f text formula = sheet.interpretFormula g text formula := by
  cases formula with
  | single operand =>
    exact interpretOperand_congr (h operand List.mem_cons_self)
  | binary left operator right =>
    have hleft := interpretOperand_congr (h left List.mem_cons_self)
    have hright := interpretOperand_congr (h right (List.mem_cons_of_mem left List.mem_cons_self))
    simp only [interpretFormula, hleft, hright]

/-- The value of a cell depends only on the values of the cells that it refers to. -/
theorem interpret_congr {sheet : Sheet} {f g : sheet.Member → Outcome} {cell : sheet.Member}
    (h : ∀ target, sheet.Refers cell target → f target = g target) :
    sheet.interpret f cell = sheet.interpret g cell := by
  unfold interpret
  split
  · rfl
  · rename_i rest htext
    split
    · rfl
    · rename_i formula hparse
      exact interpretFormula_congr fun operand ho target hnames =>
        h target ⟨formula, operand, ⟨rest, htext, hparse⟩, ho, hnames⟩
  · rfl

/-! ## When the reading succeeds -/

theorem interpretOperand_eq_ok_iff {sheet : Sheet} {f : sheet.Member → Outcome}
    {operand : Operand} {x : Binary64} :
    sheet.interpretOperand f operand = .ok x ↔
      (∃ y, Term.parse operand.text = .ok (.literal y) ∧ x = operand.sign.apply y) ∨
      ∃ target y, sheet.Names operand target ∧ f target = .ok y ∧ x = operand.sign.apply y := by
  constructor
  · intro h
    unfold interpretOperand at h
    split at h
    · cases h
    · rename_i y hparse
      exact .inl ⟨y, hparse, (Except.ok.inj h).symm⟩
    · rename_i label position hparse
      split at h
      · cases h
      · rename_i target hfound
        split at h
        · cases h
        · rename_i y hvalue
          exact .inr ⟨target, y, ⟨label, position, hparse, hfound⟩, hvalue,
            (Except.ok.inj h).symm⟩
  · rintro (⟨y, hparse, rfl⟩ | ⟨target, y, ⟨label, position, hparse, hfound⟩, hvalue, rfl⟩)
    · simp only [interpretOperand, hparse]
    · simp only [interpretOperand, hparse, hfound, hvalue]

theorem combined_eq_ok_iff {text : String} {operator : Sign} {x y z : Binary64} :
    combined text operator x y = .ok z ↔
      (operator.combine x y).isSafe = true ∧ z = operator.combine x y := by
  unfold combined
  by_cases hsafe : (operator.combine x y).isSafe = true
  · simp only [hsafe, if_true, Except.ok.injEq, true_and]
    exact eq_comm
  · simp [hsafe]

theorem parse?_nil : Literal.parse? [] = none := rfl

/-- A text that a number is read from is no formula. -/
theorem parse?_equals (rest : List Char) : Literal.parse? ('=' :: rest) = none := by
  unfold Literal.parse?
  rw [Text.trim_cons rfl]
  rfl

theorem interpret_eq_ok_iff {sheet : Sheet} {f : sheet.Member → Outcome} {cell : sheet.Member}
    {x : Binary64} :
    sheet.interpret f cell = .ok x ↔
      (sheet.trimmed cell = [] ∧ x = 0) ∨
      Literal.parse? (sheet.trimmed cell) = some x ∨
      (∃ operand, sheet.HasFormula cell (.single operand) ∧
        sheet.interpretOperand f operand = .ok x) ∨
      ∃ left operator right y z, sheet.HasFormula cell (.binary left operator right) ∧
        sheet.interpretOperand f left = .ok y ∧ sheet.interpretOperand f right = .ok z ∧
        (operator.combine y z).isSafe = true ∧ x = operator.combine y z := by
  constructor
  · intro h
    unfold interpret at h
    split at h
    · rename_i hblank
      exact .inl ⟨hblank, (Except.ok.inj h).symm⟩
    · rename_i rest htext
      split at h
      · cases h
      · rename_i formula hparse
        cases formula with
        | single operand => exact .inr (.inr (.inl ⟨operand, ⟨rest, htext, hparse⟩, h⟩))
        | binary left operator right =>
          simp only [interpretFormula] at h
          split at h
          · cases h
          · rename_i y hleft
            split at h
            · cases h
            · rename_i z hright
              obtain ⟨hsafe, hx⟩ := combined_eq_ok_iff.mp h
              exact .inr (.inr (.inr ⟨left, operator, right, y, z, ⟨rest, htext, hparse⟩, hleft,
                hright, hsafe, hx⟩))
    · split at h
      · rename_i y hparse
        cases h
        exact .inr (.inl hparse)
      · cases h
  · rintro (⟨hblank, hx⟩ | hparse | ⟨operand, ⟨rest, htext, hparse⟩, hvalue⟩ |
      ⟨left, operator, right, y, z, ⟨rest, htext, hparse⟩, hleft, hright, hsafe, hx⟩)
    · simp only [interpret, hblank, hx]
    · unfold interpret
      split
      · rename_i hblank
        rw [hblank, parse?_nil] at hparse
        cases hparse
      · rename_i rest htext
        rw [htext, parse?_equals] at hparse
        cases hparse
      · rw [hparse]
    · simp only [interpret, htext, hparse, interpretFormula, hvalue]
    · simp only [interpret, htext, hparse, interpretFormula, hleft, hright]
      exact combined_eq_ok_iff.mpr ⟨hsafe, hx⟩

/-! ## What success says about the text -/

theorem names_unique {sheet : Sheet} {operand : Operand} {target other : sheet.Member}
    (h : sheet.Names operand target) (ho : sheet.Names operand other) : target = other := by
  obtain ⟨label, position, hparse, hfound⟩ := h
  obtain ⟨label', position', hparse', hfound'⟩ := ho
  rw [hparse] at hparse'
  cases hparse'
  rw [hfound] at hfound'
  exact Option.some.inj hfound'

theorem eq_ok_of_names {sheet : Sheet} {f : sheet.Member → Outcome} {operand : Operand}
    {target : sheet.Member} {x : Binary64} (h : sheet.interpretOperand f operand = .ok x)
    (hn : sheet.Names operand target) : ∃ y, f target = .ok y := by
  rcases interpretOperand_eq_ok_iff.mp h with ⟨y, hliteral, -⟩ | ⟨other, y, hother, hvalue, -⟩
  · obtain ⟨label, position, hparse, -⟩ := hn
    rw [hliteral] at hparse
    cases hparse
  · rw [names_unique hn hother]
    exact ⟨y, hvalue⟩

theorem interpret_of_hasFormula {sheet : Sheet} {cell : sheet.Member} {formula : Formula}
    (h : sheet.HasFormula cell formula) (f : sheet.Member → Outcome) :
    ∃ text, sheet.interpret f cell = sheet.interpretFormula f text formula := by
  obtain ⟨rest, htext, hparse⟩ := h
  exact ⟨String.ofList (Text.trim rest), by simp only [interpret, htext, hparse]⟩

theorem operand_eq_ok_of_formula {sheet : Sheet} {f : sheet.Member → Outcome} {text : String}
    {formula : Formula} {x : Binary64} (h : sheet.interpretFormula f text formula = .ok x)
    {operand : Operand} (ho : operand ∈ formula.operands) :
    ∃ y, sheet.interpretOperand f operand = .ok y := by
  cases formula with
  | single only =>
    rw [List.mem_singleton.mp ho]
    exact ⟨x, h⟩
  | binary left operator right =>
    simp only [interpretFormula] at h
    split at h
    · cases h
    · rename_i y hleft
      split at h
      · cases h
      · rename_i z hright
        rcases List.mem_cons.mp ho with rfl | hlast
        · exact ⟨y, hleft⟩
        · rw [List.mem_singleton.mp hlast]
          exact ⟨z, hright⟩

theorem operand_eq_ok {sheet : Sheet} {f : sheet.Member → Outcome} {cell : sheet.Member}
    {x : Binary64} (h : sheet.interpret f cell = .ok x) {formula : Formula}
    (hf : sheet.HasFormula cell formula) {operand : Operand} (ho : operand ∈ formula.operands) :
    ∃ y, sheet.interpretOperand f operand = .ok y := by
  obtain ⟨text, htext⟩ := interpret_of_hasFormula hf f
  rw [htext] at h
  exact operand_eq_ok_of_formula h ho

/-- A reading that succeeds has found a value for each cell that the text refers to. -/
theorem eq_ok_of_refers {sheet : Sheet} {f : sheet.Member → Outcome} {cell target : sheet.Member}
    {x : Binary64} (h : sheet.interpret f cell = .ok x) (hr : sheet.Refers cell target) :
    ∃ y, f target = .ok y := by
  obtain ⟨formula, operand, hf, ho, hn⟩ := hr
  obtain ⟨y, hy⟩ := operand_eq_ok h hf ho
  exact eq_ok_of_names hy hn

theorem term_of_operand_eq_ok {sheet : Sheet} {f : sheet.Member → Outcome} {operand : Operand}
    {x : Binary64} (h : sheet.interpretOperand f operand = .ok x) :
    ∃ term, Term.parse operand.text = .ok term := by
  rcases interpretOperand_eq_ok_iff.mp h with ⟨y, hparse, -⟩ | ⟨target, y, hn, -, -⟩
  · exact ⟨_, hparse⟩
  · obtain ⟨label, position, hparse, -⟩ := hn
    exact ⟨_, hparse⟩

theorem wellFormed_of_eq_ok {sheet : Sheet} {f : sheet.Member → Outcome} {cell : sheet.Member}
    {x : Binary64} (h : sheet.interpret f cell = .ok x) : sheet.WellFormed cell := by
  have hoperands : ∀ formula, sheet.HasFormula cell formula →
      ∀ operand ∈ formula.operands, ∃ term, Term.parse operand.text = .ok term := by
    intro formula hf operand ho
    obtain ⟨y, hy⟩ := operand_eq_ok h hf ho
    exact term_of_operand_eq_ok hy
  rcases interpret_eq_ok_iff.mp h with ⟨hblank, -⟩ | hliteral | ⟨operand, hf, -⟩ |
      ⟨left, operator, right, y, z, hf, -⟩
  · exact .inl hblank
  · exact .inr (.inl (by rw [hliteral, Option.isSome_some]))
  · exact .inr (.inr ⟨_, hf, hoperands _ hf⟩)
  · exact .inr (.inr ⟨_, hf, hoperands _ hf⟩)

/-- Each position that is mentioned by a text that reads well is a cell of the sheet. -/
theorem refers_of_mentions {sheet : Sheet} {f : sheet.Member → Outcome} {cell : sheet.Member}
    {x : Binary64} (h : sheet.interpret f cell = .ok x) {position : Position}
    (hm : sheet.Mentions cell position) :
    ∃ target, sheet.memberAt? position = some target ∧ sheet.Refers cell target := by
  obtain ⟨formula, operand, label, hf, ho, hparse⟩ := hm
  obtain ⟨y, hy⟩ := operand_eq_ok h hf ho
  rcases interpretOperand_eq_ok_iff.mp hy with ⟨z, hliteral, -⟩ | ⟨target, z, hn, -, -⟩
  · rw [hparse] at hliteral
    cases hliteral
  · have hnames := hn
    obtain ⟨label', position', hparse', hfound⟩ := hn
    rw [hparse] at hparse'
    cases hparse'
    exact ⟨target, hfound, formula, operand, hf, ho, hnames⟩

end Sheet
end Worksheet
