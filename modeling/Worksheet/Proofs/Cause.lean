/-
Where a fault comes from.

A reading that fails has found a fault in the text of the cell itself (`OwnFault`), or was given
the fault of a cell that the text refers to (`interpret_eq_error`).  Followed along the
references, the fault of an evaluation comes from a cell behind the one that was asked for: from
its text, or from its being needed for itself (`naive_eq_error`).
-/
import Worksheet.Proofs.Naive
import Worksheet.Proofs.Label.Cell
import Worksheet.Proofs.Formula.Grammar

namespace Worksheet

/-! ## Faults of the parts -/

namespace Term

/-- An operand is refused as a whole, and only if it is no label. -/
theorem parse_eq_error {text : String} {fault : Fault} (h : parse text = .error fault) :
    fault = .invalidToken text ∧ CellLabel.isLabel text = false ∧
      Literal.parse? text.toList = none := by
  unfold parse at h
  by_cases hlabel : CellLabel.isLabel text = true
  · rw [if_pos hlabel] at h
    -- A text of the form of a label has a position, whatever its numbers are.
    obtain ⟨letters, digits, hspells⟩ := CellLabel.isLabel_iff.mp hlabel
    obtain ⟨x, hposition, -⟩ := CellLabel.toPosition_of_spells hspells
    rw [hposition] at h
    cases h
  · rw [if_neg hlabel] at h
    split at h
    · cases h
    · rename_i hnone
      exact ⟨(Except.error.inj h).symm, Bool.eq_false_iff.mpr hlabel, hnone⟩

end Term

theorem combined_eq_error {text : String} {operator : Sign} {x y : Binary64} {fault : Fault}
    (h : combined text operator x y = .error fault) :
    (operator.combine x y).isSafe = false ∧
      fault = .invalidFormula text (some unsafeResult) := by
  simp only [combined] at h
  split at h
  · cases h
  · rename_i hrange
    exact ⟨Bool.eq_false_iff.mpr hrange, (Except.error.inj h).symm⟩

namespace Sheet

variable {sheet : Sheet} {f : sheet.Member → Outcome} {cell : sheet.Member} {fault : Fault}

/-- An operand of the cell's formula. -/
def HasOperand (sheet : Sheet) (cell : sheet.Member) (operand : Operand) : Prop :=
  ∃ formula, sheet.HasFormula cell formula ∧ operand ∈ formula.operands

/-- The faults of a text, where `f` gives the values of the cells that it refers to. -/
inductive OwnFault (sheet : Sheet) (f : sheet.Member → Outcome) (cell : sheet.Member) :
    Fault → Prop where
  | value (filled : sheet.trimmed cell ≠ []) (noFormula : ∀ rest, sheet.trimmed cell ≠ '=' :: rest)
      (noNumber : Literal.parse? (sheet.trimmed cell) = none) :
      OwnFault sheet f cell (.invalidCellValue cell.1.label (cell.1.position.row + 1)
        (cell.1.position.column + 1) (sheet.text cell.1))
  | formula (rest : List Char) (text_eq : sheet.trimmed cell = '=' :: rest)
      (refused : ∀ formula, Formula.parse (String.ofList (Text.trim rest)) ≠ .ok formula) :
      OwnFault sheet f cell (.invalidFormula (String.ofList (Text.trim rest)) none)
  | token (operand : Operand) (mem : sheet.HasOperand cell operand)
      (noLabel : CellLabel.isLabel operand.text = false)
      (noNumber : Literal.parse? operand.text.toList = none) :
      OwnFault sheet f cell (.invalidToken operand.text)
  | outside (operand : Operand) (mem : sheet.HasOperand cell operand) (label : String)
      (position : Position) (reads : Term.parse operand.text = .ok (.reference label position))
      (noCell : sheet.memberAt? position = none) :
      OwnFault sheet f cell (sheet.outOfRange label)
  | result (rest : List Char) (text_eq : sheet.trimmed cell = '=' :: rest) (left : Operand)
      (operator : Sign) (right : Operand)
      (reads : Formula.parse (String.ofList (Text.trim rest)) = .ok (.binary left operator right))
      (x y : Binary64) (left_eq : sheet.interpretOperand f left = .ok x)
      (right_eq : sheet.interpretOperand f right = .ok y)
      (notSafe : (operator.combine x y).isSafe = false) :
      OwnFault sheet f cell
        (.invalidFormula (String.ofList (Text.trim rest)) (some unsafeResult))

theorem OwnFault.ne_circularReference (h : sheet.OwnFault f cell fault) (label : String) :
    fault ≠ .circularReference label := by
  intro heq
  cases h <;> cases heq

/-! ## A reading that fails -/

/-- The operand passes on the fault of the cell that it names, or has a fault of its own. -/
theorem interpretOperand_eq_error {operand : Operand} (hmem : sheet.HasOperand cell operand)
    (h : sheet.interpretOperand f operand = .error fault) :
    (∃ target, sheet.Names operand target ∧ f target = .error fault) ∨
      sheet.OwnFault f cell fault := by
  unfold interpretOperand at h
  split at h
  · rename_i found hparse
    obtain ⟨rfl, hlabel, hnumber⟩ := Term.parse_eq_error hparse
    rw [← Except.error.inj h]
    exact .inr (.token operand hmem hlabel hnumber)
  · cases h
  · rename_i label position hparse
    split at h
    · rename_i hnone
      rw [← Except.error.inj h]
      exact .inr (.outside operand hmem label position hparse hnone)
    · rename_i target hfound
      split at h
      · rename_i found hvalue
        rw [Except.error.inj h] at hvalue
        exact .inl ⟨target, ⟨label, position, hparse, hfound⟩, hvalue⟩
      · cases h

theorem interpretFormula_eq_error {rest : List Char} {formula : Formula}
    (htext : sheet.trimmed cell = '=' :: rest)
    (hparse : Formula.parse (String.ofList (Text.trim rest)) = .ok formula)
    (h : sheet.interpretFormula f (String.ofList (Text.trim rest)) formula = .error fault) :
    (∃ target, sheet.Refers cell target ∧ f target = .error fault) ∨
      sheet.OwnFault f cell fault := by
  have hformula : sheet.HasFormula cell formula := ⟨rest, htext, hparse⟩
  have hoperand : ∀ operand ∈ formula.operands, sheet.interpretOperand f operand = .error fault →
      (∃ target, sheet.Refers cell target ∧ f target = .error fault) ∨
        sheet.OwnFault f cell fault := by
    intro operand ho hfault
    rcases interpretOperand_eq_error ⟨formula, hformula, ho⟩ hfault with
      ⟨target, hnames, hvalue⟩ | hown
    · exact .inl ⟨target, ⟨formula, operand, hformula, ho, hnames⟩, hvalue⟩
    · exact .inr hown
  cases formula with
  | single operand => exact hoperand operand List.mem_cons_self h
  | binary left operator right =>
    simp only [interpretFormula] at h
    split at h
    · rename_i found hleft
      rw [Except.error.inj h] at hleft
      exact hoperand left List.mem_cons_self hleft
    · rename_i x hleft
      split at h
      · rename_i found hright
        rw [Except.error.inj h] at hright
        exact hoperand right (List.mem_cons_of_mem left List.mem_cons_self) hright
      · rename_i y hright
        obtain ⟨hrange, rfl⟩ := combined_eq_error h
        exact .inr (.result rest htext left operator right hparse x y hleft hright hrange)

theorem interpret_eq_error (h : sheet.interpret f cell = .error fault) :
    (∃ target, sheet.Refers cell target ∧ f target = .error fault) ∨
      sheet.OwnFault f cell fault := by
  unfold interpret at h
  split at h
  · cases h
  · rename_i rest htext
    split at h
    · rename_i found hparse
      rw [← Except.error.inj h, Formula.parse_eq_error hparse]
      refine .inr (.formula rest htext fun formula hok => ?_)
      rw [hparse] at hok
      cases hok
    · rename_i formula hparse
      exact interpretFormula_eq_error htext hparse h
  · rename_i hfilled hnot
    split at h
    · cases h
    · rename_i hnumber
      rw [← Except.error.inj h]
      exact .inr (.value hfilled hnot hnumber)

/-! ## An evaluation that fails -/

/-- The cell is needed for its own value. -/
abbrev OnCycle (sheet : Sheet) (cell : sheet.Member) : Prop :=
  Relation.TransGen sheet.Refers cell cell

/-- The cell that the fault of an evaluation comes from.  It is met again on the path, or its
text is at fault. -/
theorem naive_eq_error {path : List sheet.Member} (h : sheet.naive path cell = .error fault) :
    ∃ target, sheet.Reaches cell target ∧
      ((fault = .circularReference target.1.label ∧ (target ∈ path ∨ sheet.OnCycle target)) ∨
        ∃ route, sheet.OwnFault (sheet.naive route) target fault) := by
  induction path, cell using naive.induct sheet with
  | case1 path cell hmem =>
    rw [naive_of_mem hmem] at h
    exact ⟨cell, .refl, .inl ⟨(Except.error.inj h).symm, .inl hmem⟩⟩
  | case2 path cell hoff ih =>
    rw [naive_of_not_mem hoff] at h
    rcases interpret_eq_error h with ⟨next, hstep, hnext⟩ | hown
    · obtain ⟨target, hreach, hcause⟩ := ih next hnext
      refine ⟨target, .head hstep hreach, ?_⟩
      rcases hcause with ⟨hfault, hagain⟩ | htext
      · refine .inl ⟨hfault, ?_⟩
        rcases hagain with hmem | hcycle
        · rcases List.mem_cons.mp hmem with rfl | hmem
          · -- The references of the cell have led back to it.
            exact .inr (.head' hstep hreach)
          · exact .inl hmem
        · exact .inr hcycle
      · exact .inr htext
    · exact ⟨cell, .refl, .inr ⟨_, hown⟩⟩

end Sheet
end Worksheet
