/-
What the cells of a sheet say.

The content of a cell is its text, understood: a number, a formula whose operands are
numbers or cells of the sheet, or a fault.  An operand can be faulty on its own, and that
fault is met only when the operand is: the left operand is evaluated first, so its faults
come before those of the right one.
-/
import Worksheet.Formula.Term
import Worksheet.Sheet.Basic

namespace Worksheet

/-- What the text of an operand stands for. -/
inductive Source where
  | value (x : Binary64)
  | cell (cell : Cell)
  | faulty (fault : Fault)
  deriving DecidableEq

/-- An operand of a formula, with its sign. -/
structure Summand where
  sign : Sign
  source : Source
  deriving DecidableEq

inductive Content where
  | value (x : Binary64)
  | single (operand : Summand)
  /-- Two operands, with the text of the formula for a report about its result. -/
  | binary (formula : String) (left : Summand) (operator : Sign) (right : Summand)
  | faulty (fault : Fault)
  deriving DecidableEq

namespace Sign

def apply : Sign → Binary64 → Binary64
  | plus, x => x
  | minus, x => 0 - x

def combine : Sign → Binary64 → Binary64 → Binary64
  | plus, x, y => x + y
  | minus, x, y => x - y

end Sign

/-! ## Reading a cell -/

namespace Sheet

def source (sheet : Sheet) (text : String) : Source :=
  match Term.parse text with
  | .error fault => .faulty fault
  | .ok (.literal x) => .value x
  | .ok (.reference label position) =>
    match sheet.cellAt? position with
    | some cell => .cell cell
    | none => .faulty (sheet.outOfRange label)

def summand (sheet : Sheet) (operand : Operand) : Summand :=
  ⟨operand.sign, sheet.source operand.text⟩

/-- What a formula, the text after the equals sign, says. -/
def formulaContent (sheet : Sheet) (formula : String) : Content :=
  match Formula.parse formula with
  | .error fault => .faulty fault
  | .ok (.single operand) => .single (sheet.summand operand)
  | .ok (.binary left operator right) =>
    .binary formula (sheet.summand left) operator (sheet.summand right)

/-- What a cell says.  A blank cell says zero. -/
def content (sheet : Sheet) (cell : Cell) : Content :=
  match Text.trim (sheet.text cell).toList with
  | [] => .value 0
  | '=' :: formula => sheet.formulaContent (String.ofList (Text.trim formula))
  | text =>
    match Literal.parse? text with
    | some x => .value x
    | none =>
      .faulty (.invalidCellValue cell.label (cell.position.row + 1) (cell.position.column + 1)
        (sheet.text cell))

end Sheet

/-! ## References -/

/-- The cell that a source names, if it names one. -/
def Source.references : Source → List Cell
  | .cell target => [target]
  | _ => []

def Content.references : Content → List Cell
  | .single operand => operand.source.references
  | .binary _ left _ right => left.source.references ++ right.source.references
  | _ => []

namespace Sheet

theorem contains_of_mem_source {sheet : Sheet} {text : String} {cell : Cell}
    (h : cell ∈ (sheet.source text).references) : sheet.Contains cell := by
  unfold source at h
  split at h
  · simp [Source.references] at h
  · simp [Source.references] at h
  · split at h
    · rename_i found
      simp only [Source.references, List.mem_singleton] at h
      subst h
      exact contains_of_cellAt? found
    · simp [Source.references] at h

theorem contains_of_mem_references {sheet : Sheet} {cell other : Cell}
    (h : other ∈ (sheet.content cell).references) : sheet.Contains other := by
  unfold content at h
  split at h
  · simp [Content.references] at h
  · unfold formulaContent at h
    split at h
    · simp [Content.references] at h
    · exact contains_of_mem_source h
    · simp only [Content.references, List.mem_append] at h
      exact h.elim contains_of_mem_source contains_of_mem_source
  · split at h <;> simp [Content.references] at h

end Sheet
end Worksheet
