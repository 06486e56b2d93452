/-
Every fault of a request tells the truth.

`Sheet.Blames` says, for each kind of fault, what has to hold of a cell that such a fault names;
nothing in it refers to how a fault is found.  A request that fails does so with a fault that
blames a cell behind the one that was being evaluated, or with one about the request itself
(`failed_explained`).  So there is no other fault: none of a label or a number that cannot be
written, and none of a cell that is not there.
-/
import Worksheet.Proofs.Cycle
import Worksheet.Proofs.Equation

namespace Worksheet

open Binary64 Relation

/-! ## Positions in reports -/

/-- How a position is reported: by its label if it has one, else by its two numbers. -/
inductive Position.Described (position : Position) : String → Prop
  | label {row column : Nat} {label : String} (row_eq : position.row.toNat? = some row)
      (column_eq : position.column.toNat? = some column)
      (written : CellLabel.ofPosition position = .ok label) : Described position label
  | numbers (unlabelled : position.row.toNat? = none ∨ position.column.toNat? = none) :
      Described position ("(" ++ position.row.text ++ ", " ++ position.column.text ++ ")")

/-- Where there is a label it can be written, however large the numbers are. -/
theorem Sheet.described_describe (position : Position) :
    position.Described (describe position) := by
  unfold describe
  split
  · rename_i row column hrow hcolumn
    obtain ⟨n, hn⟩ := exists_toNat?_add_one hcolumn
    exact .label hrow hcolumn (CellLabel.ofPosition_eq_ok hn)
  · rename_i hnot
    refine .numbers ?_
    cases hrow : position.row.toNat? with
    | none => exact .inl rfl
    | some row =>
      cases hcolumn : position.column.toNat? with
      | none => exact .inr rfl
      | some column => exact absurd hcolumn (hnot row column hrow)

/-- The row and the column of a cell, counted from one, and its label. -/
structure Cell.Named (cell : Cell) (label : String) (row column : Binary64) : Prop where
  label_eq : CellLabel.ofPosition cell.position = .ok label
  row_eq : row = .ofNat (cell.row + 1)
  column_eq : column = .ofNat (cell.column + 1)

theorem Cell.named {cell : Cell} (hrow : cell.row < maxSafe) (hcolumn : cell.column < maxSafe) :
    cell.Named cell.label (cell.position.row + 1) (cell.position.column + 1) := by
  have hnext : ∀ n, n < maxSafe → ofNat n + 1 = ofNat (n + 1) := by
    intro n hn
    have hbound := le_bitBound_of_le_maxSafe (Nat.le_of_lt hn)
    exact add_ofNat hbound one_le_bitBound
  refine ⟨ofPosition_position hcolumn, ?_, ?_⟩
  · simp only [position, hnext cell.row hrow]
  · simp only [position, hnext cell.column hcolumn]

namespace Sheet

variable {sheet : Sheet} {cell target : sheet.Member} {fault : Fault}

/-! ## Faults that blame a cell -/

/-- The text has the form of a label, and the sheet has no cell there. -/
def Outside (sheet : Sheet) (text : String) : Prop :=
  ∃ position, CellLabel.toPosition text = .ok position ∧ sheet.memberAt? position = none

/-- Each cell behind the references of a cell has the number that its equation asks for.  No cycle
is behind them, so there is no other such number, and it is safe. -/
def SolvedBehind (sheet : Sheet) (v : sheet.Member → Int) (cell : sheet.Member) : Prop :=
  ∀ target, TransGen sheet.Refers cell target →
    ¬ sheet.OnCycle target ∧ sheet.Yields v target (v target) ∧ (v target).natAbs ≤ maxSafe

/-- What has to hold of a cell that a fault names. -/
inductive Blames (sheet : Sheet) (cell : sheet.Member) : Fault → Prop
  | value (filled : sheet.trimmed cell ≠ []) (noFormula : ∀ rest, sheet.trimmed cell ≠ '=' :: rest)
      (noNumber : Literal.parse? (sheet.trimmed cell) = none) :
      Blames sheet cell (.invalidCellValue cell.1.label (cell.1.position.row + 1)
        (cell.1.position.column + 1) (sheet.text cell.1))
  | token (operand : Operand) (mem : sheet.HasOperand cell operand)
      (noLabel : ∀ letters digits, ¬ CellLabel.Spells operand.text.toList letters digits)
      (noNumber : Literal.parse? operand.text.toList = none) :
      Blames sheet cell (.invalidToken operand.text)
  | outside (operand : Operand) (mem : sheet.HasOperand cell operand)
      (outside : sheet.Outside operand.text) : Blames sheet cell (sheet.outOfRange operand.text)
  | formula (rest : List Char) (text_eq : sheet.trimmed cell = '=' :: rest)
      (refused : ∀ formula, Formula.parse (String.ofList (Text.trim rest)) ≠ .ok formula) :
      Blames sheet cell (.invalidFormula (String.ofList (Text.trim rest)) none)
  | result (rest : List Char) (text_eq : sheet.trimmed cell = '=' :: rest)
      (binary : sheet.IsBinary cell) (v : sheet.Member → Int) (solved : sheet.SolvedBehind v cell)
      (n : Int) (yields : sheet.Yields v cell n) (large : maxSafe < n.natAbs) :
      Blames sheet cell (.invalidFormula (String.ofList (Text.trim rest)) (some unsafeResult))
  | cycle (needed : sheet.OnCycle cell) : Blames sheet cell (.circularReference cell.1.label)

theorem outside_of_parse {text label : String} {position : Position}
    (hparse : Term.parse text = .ok (.reference label position))
    (hnone : sheet.memberAt? position = none) : label = text ∧ sheet.Outside text := by
  unfold Term.parse at hparse
  split at hparse
  · split at hparse
    · rename_i hposition
      cases hparse
      exact ⟨rfl, _, hposition, hnone⟩
    · cases hparse
  · split at hparse <;> cases hparse

/-- What is behind a cell whose operands have values has exact values. -/
theorem solvedBehind_amount {route : List sheet.Member}
    (h : ∀ target, sheet.Refers cell target → ∃ x, sheet.naive route target = .ok x) :
    sheet.SolvedBehind sheet.amount cell := by
  intro target hbehind
  obtain ⟨next, hstep, hreach⟩ := TransGen.head'_iff.mp hbehind
  obtain ⟨x, hx⟩ := h next hstep
  obtain ⟨path, y, hy⟩ := naive_eq_ok_of_reaches hx hreach
  obtain ⟨hexact, hyields⟩ := naive_exact hy
  exact ⟨not_cyclic_of_naive_eq_ok hy, hyields, hexact.bound⟩

/-- A result that is refused after rounding is out of range exactly. -/
theorem blames_result {route : List sheet.Member} {rest : List Char}
    (htext : sheet.trimmed cell = '=' :: rest) {left right : Operand} {operator : Sign}
    (hparse : Formula.parse (String.ofList (Text.trim rest)) = .ok (.binary left operator right))
    {x y : Binary64} (hleft : sheet.interpretOperand (sheet.naive route) left = .ok x)
    (hright : sheet.interpretOperand (sheet.naive route) right = .ok y)
    (hnot : (operator.combine x y).isSafe = false) :
    sheet.Blames cell (.invalidFormula (String.ofList (Text.trim rest)) (some unsafeResult)) := by
  have hformula : sheet.HasFormula cell (.binary left operator right) := ⟨rest, htext, hparse⟩
  have hexact : ∀ target z, sheet.naive route target = .ok z →
      Represents z (sheet.amount target) := fun target z hz => (naive_exact hz).1
  obtain ⟨m, hm, hx⟩ := amounts_of_eq_ok hleft fun target z _ => hexact target z
  obtain ⟨n, hn, hy⟩ := amounts_of_eq_ok hright fun target z _ => hexact target z
  have hbehind : sheet.SolvedBehind sheet.amount cell := by
    apply solvedBehind_amount
    show ∀ target, sheet.Refers cell target → ∃ z, sheet.naive route target = .ok z
    intro target hr
    obtain ⟨formula, operand, hformula', ho, hnames⟩ := hr
    rw [← hasFormula_unique hformula hformula'] at ho
    rcases List.mem_cons.mp ho with rfl | hlast
    · exact eq_ok_of_names hleft hnames
    · rw [List.mem_singleton.mp hlast] at hnames
      exact eq_ok_of_names hright hnames
  have hlarge : maxSafe < (operator.combineExact m n).natAbs := by
    rw [Sign.combine_eq_ofInt hx hy operator, Bool.eq_false_iff, ne_eq, isSafe_ofInt_iff] at hnot
    omega
  exact .result rest htext ⟨left, operator, right, hformula⟩ sheet.amount hbehind _
    (.formula hformula (.binary hm hn)) hlarge

theorem OwnFault.blames {route : List sheet.Member}
    (h : sheet.OwnFault (sheet.naive route) cell fault) : sheet.Blames cell fault := by
  cases h with
  | value filled noFormula noNumber => exact .value filled noFormula noNumber
  | formula rest htext refused => exact .formula rest htext refused
  | token operand mem noLabel noNumber =>
    exact .token operand mem (CellLabel.isLabel_eq_false_iff.mp noLabel) noNumber
  | outside operand mem label position reads noCell =>
    obtain ⟨rfl, hout⟩ := outside_of_parse reads noCell
    exact .outside operand mem hout
  | result rest htext left operator right reads x y hleft hright hnot =>
    exact blames_result htext reads hleft hright hnot

/-- A cell without a value has a cell behind it that its fault blames. -/
theorem exists_blames_of_naive (h : sheet.naive [] cell = .error fault) :
    ∃ target, sheet.Reaches cell target ∧ sheet.Blames target fault := by
  obtain ⟨target, hreach, hcause⟩ := naive_eq_error h
  rcases hcause with ⟨rfl, hmem | hcycle⟩ | ⟨route, hown⟩
  · exact absurd hmem List.not_mem_nil
  · exact ⟨target, hreach, .cycle hcycle⟩
  · exact ⟨target, hreach, hown.blames⟩

end Sheet

namespace Evaluator

/-! ## Faults of a request -/

namespace Request

/-- The label that a request is about. -/
def label? : Request → Option String
  | evaluateReference label => some label
  | locate label => some label
  | _ => none

/-- The cell that a request evaluates.  A request for all cells has come to it if all cells before
it, row by row, have values. -/
inductive Evaluates (sheet : Sheet) : Request → sheet.Member → Prop
  | all {cell} (first : ∀ other : sheet.Member, other.1.Precedes cell.1 →
      ∃ x, sheet.naive [] other = .ok x) : Evaluates sheet .evaluateAll cell
  | position {position cell} (found : sheet.memberAt? position = some cell) :
      Evaluates sheet (.evaluateCell position) cell
  | label {label cell} (found : sheet.atLabel label = .ok cell) :
      Evaluates sheet (.evaluateReference label) cell

/-- The faults that tell the truth about a request. -/
inductive Explains (sheet : Sheet) (request : Request) : Fault → Prop
  | cell {asked target fault} (evaluates : request.Evaluates sheet asked)
      (reaches : sheet.Reaches asked target) (blames : sheet.Blames target fault) :
      Explains sheet request fault
  | position {position reference} (asks : request = .evaluateCell position)
      (outside : sheet.memberAt? position = none) (described : position.Described reference) :
      Explains sheet request (sheet.outOfRange reference)
  | outside {label} (asks : request.label? = some label) (outside : sheet.Outside label) :
      Explains sheet request (sheet.outOfRange label)
  | noLabel {label} (asks : request.label? = some label)
      (form : ∀ letters digits, ¬ CellLabel.Spells label.toList letters digits) :
      Explains sheet request (.invalidReference label)

variable {sheet : Sheet} {request : Request} {fault : Fault}

theorem explains_of_naive {asked : sheet.Member} (he : request.Evaluates sheet asked)
    (h : sheet.naive [] asked = .error fault) : request.Explains sheet fault := by
  obtain ⟨target, hreach, hblames⟩ := Sheet.exists_blames_of_naive h
  exact .cell he hreach hblames

theorem explains_of_atLabel {label : String} (hasks : request.label? = some label)
    (h : sheet.atLabel label = .error fault) : request.Explains sheet fault := by
  unfold Sheet.atLabel at h
  split at h
  · rename_i found hposition
    -- Reading a label fails only for its form: the letters of a label are letters.
    have hform : ∀ letters digits, ¬ CellLabel.Spells label.toList letters digits := by
      intro letters digits hspells
      obtain ⟨x, hread, -⟩ := CellLabel.toPosition_of_spells hspells
      rw [hread] at hposition
      cases hposition
    rw [CellLabel.toPosition_of_not_spells hform] at hposition
    rw [← Except.error.inj h, ← Except.error.inj hposition]
    exact .noLabel hasks hform
  · rename_i position hposition
    split at h
    · cases h
    · rename_i hnone
      rw [← Except.error.inj h]
      exact .outside hasks ⟨position, hposition, hnone⟩

theorem explains_of_evaluateCell {position : Position}
    (h : (sheet.atPosition position).bind (sheet.naive []) = .error fault) :
    (evaluateCell position).Explains sheet fault := by
  unfold Sheet.atPosition at h
  cases hfound : sheet.memberAt? position with
  | none =>
    rw [hfound] at h
    rw [← Except.error.inj h]
    exact .position rfl hfound (Sheet.described_describe position)
  | some cell =>
    rw [hfound] at h
    exact explains_of_naive (.position hfound) h

theorem explains_of_evaluateReference {label : String}
    (h : (sheet.atLabel label).bind (sheet.naive []) = .error fault) :
    (evaluateReference label).Explains sheet fault := by
  cases hfound : sheet.atLabel label with
  | error found =>
    rw [hfound] at h
    rw [← Except.error.inj h]
    exact explains_of_atLabel rfl hfound
  | ok cell =>
    rw [hfound] at h
    exact explains_of_naive (.label hfound) h

theorem explains_of_evaluateAll (h : sheet.IsFirstNaiveFault fault) :
    evaluateAll.Explains sheet fault := by
  obtain ⟨cell, hfault, hbefore⟩ := h
  exact explains_of_naive (.all hbefore) hfault

end Request

namespace Session

variable {session : Session} {fault : Fault}

/-- An evaluator at rest fails only with a fault that tells the truth. -/
theorem explains_of_atRest (hrest : session.evaluator.AtRest) (request : Request)
    (took : Binary64) (h : (session.step (request.step took)).1 = .failed fault) :
    request.Explains session.evaluator.sheet fault := by
  cases request with
  | evaluateAll =>
    rw [Request.step, fst_step_evaluateAll] at h
    have hanswer := Answer.eq_error_of_ofTable h
    rw [walk, evaluateAll_eq_error_iff session.host _ hrest] at hanswer
    exact Request.explains_of_evaluateAll hanswer
  | evaluateCell position =>
    simp only [Request.step, step, fst_respond] at h
    rw [evaluateCell_answer session.host hrest] at h
    exact Request.explains_of_evaluateCell (Answer.eq_error_of_ofOutcome h)
  | evaluateReference label =>
    simp only [Request.step, step, fst_respond] at h
    rw [evaluateReference_answer session.host hrest] at h
    exact Request.explains_of_evaluateReference (Answer.eq_error_of_ofOutcome h)
  | locate label =>
    rw [Request.step, fst_step_locate] at h
    exact Request.explains_of_atLabel rfl (Answer.eq_error_of_ofCell h)

/-- Whatever was done before, a request that fails does so with a fault that tells the truth about
the request or about a cell behind the one that was being evaluated, and the cell is named by its
label and its numbers. -/
theorem failed_explained (host : Host) (logger : Logger) (id : String) (sheet : Sheet)
    (steps : List Step) (request : Request) (took : Binary64) (fault : Fault)
    (h : (((fresh host logger id sheet).after steps).step (request.step took)).1 =
      .failed fault) :
    request.Explains sheet fault ∧
      ∀ cell : sheet.Member, cell.1.row < maxSafe → cell.1.column < maxSafe →
        cell.1.Named cell.1.label (cell.1.position.row + 1) (cell.1.position.column + 1) := by
  have hcontinues := after_fresh_continues host logger id sheet steps
  have hsheet : ((fresh host logger id sheet).after steps).evaluator.sheet = sheet :=
    hcontinues.sheet_eq
  have hexplains := explains_of_atRest hcontinues.atRest request took h
  rw [hsheet] at hexplains
  exact ⟨hexplains, fun _ => Cell.named⟩

/-- The fault of a cell two references away blames that cell. -/
theorem failed_explained_chain :
    let sheet : Sheet := ⟨[["=B1+C1", "=D1", "2", " x"]], by decide⟩
    let host : Host := ⟨"", 0, 0, [], 0, 0⟩
    let session := (fresh host (.mute host) "" sheet).after [.evaluateAll]
    let fault : Fault := .invalidCellValue "D1" 1 4 " x"
    (session.step (.evaluateCell ⟨0, 0⟩)).1 = .failed fault ∧
      (Request.evaluateCell ⟨0, 0⟩).Explains sheet fault ∧ Cell.Named ⟨0, 3⟩ "D1" 1 4 := by
  intro sheet host session fault
  have hanswer : (session.step (.evaluateCell ⟨0, 0⟩)).1 = .failed fault := by
    have hresult : (session.evaluator.evaluateCell session.host ⟨0, 0⟩).1 = .error fault := by
      decide +kernel
    simp only [step, fst_respond, hresult, Answer.ofOutcome]
  obtain ⟨hexplains, hnamed⟩ := failed_explained host (.mute host) "" sheet [.evaluateAll]
    (.evaluateCell ⟨0, 0⟩) 0 fault hanswer
  have hcell := hnamed ⟨⟨0, 3⟩, by decide⟩ (by decide) (by decide)
  refine ⟨hanswer, hexplains, ?_⟩
  have hlabel : Cell.label ⟨0, 3⟩ = "D1" := by decide +kernel
  have hrow : (Cell.position ⟨0, 3⟩).row + 1 = 1 := by decide +kernel
  have hcolumn : (Cell.position ⟨0, 3⟩).column + 1 = 4 := by decide +kernel
  rwa [hlabel, hrow, hcolumn] at hcell

end Session
end Evaluator
end Worksheet
