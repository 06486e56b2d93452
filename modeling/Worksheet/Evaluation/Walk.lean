/-
Evaluating a cell, with every cell evaluated at most once.

`visit` goes from a cell to the cells that it names.  A cell that is done answers from its
mark, and a cell that is met while it is in progress needs its own value.  Fuel bounds the
depth: a visit starts its cell before it goes deeper, so one more than the number of cells
that are not started is enough (`isSome_visit`), and `resolve` therefore shows no fuel.
-/
import Worksheet.Evaluation.Content
import Worksheet.Evaluation.Progress

namespace Worksheet

/-- What comes of evaluating a cell. -/
abbrev Outcome := Except Fault Binary64

/-- A step of an evaluation: the outcome and how far it has come, or none if the fuel ran
out on the way. -/
abbrev Walk := Progress → Option (Outcome × Progress)

/-- Why a formula whose operands have values may have none. -/
def unsafeResult : String := "result is outside the safe integer range"

/-- The value of two operands with a sign between them, if it is safe. -/
def combined (formula : String) (operator : Sign) (x y : Binary64) : Outcome :=
  let value := operator.combine x y
  if value.isSafe then .ok value else .error (.invalidFormula formula (some unsafeResult))

namespace Source

/-- The value of a source, where `visit` evaluates the cells. -/
def resolve (visit : Cell → Walk) : Source → Walk
  | .value x, progress => some (.ok x, progress)
  | .cell target, progress => visit target progress
  | .faulty fault, progress => some (.error fault, progress)

end Source

namespace Summand

def resolve (visit : Cell → Walk) (operand : Summand) : Walk := fun progress =>
  match operand.source.resolve visit progress with
  | none => none
  | some (.error fault, after) => some (.error fault, after)
  | some (.ok x, after) => some (.ok (operand.sign.apply x), after)

end Summand

namespace Content

/-- The value of a content, where `visit` evaluates the cells.  The right operand is not
looked at when the left one has no value. -/
def resolve (visit : Cell → Walk) : Content → Walk
  | .value x, progress => some (.ok x, progress)
  | .faulty fault, progress => some (.error fault, progress)
  | .single operand, progress => operand.resolve visit progress
  | .binary formula left operator right, progress =>
    match left.resolve visit progress with
    | none => none
    | some (.error fault, after) => some (.error fault, after)
    | some (.ok x, after) =>
      match right.resolve visit after with
      | none => none
      | some (.error fault, last) => some (.error fault, last)
      | some (.ok y, last) => some (combined formula operator x y, last)

end Content

namespace Sheet

/-- Ends a visit: a value is kept, a fault leaves the cell in progress. -/
def conclude (cell : Cell) : Option (Outcome × Progress) → Option (Outcome × Progress)
  | none => none
  | some (.ok x, after) => some (.ok x, after.set cell (.done x))
  | some (.error fault, after) => some (.error fault, after)

/-- Evaluates a cell with a bound on the depth. -/
def visit (sheet : Sheet) : Nat → Cell → Walk
  | 0, _, _ => none
  | fuel + 1, cell, progress =>
    match progress cell with
    | .done x => some (.ok x, progress)
    | .inProgress => some (.error (.circularReference cell.label), progress)
    | .notStarted =>
      conclude cell
        ((sheet.content cell).resolve (sheet.visit fuel) (progress.set cell .inProgress))

end Sheet

/-! ## A visit moves forward

Marks only move on, so a step that comes later finds no more cells to start than one that
came before. -/

/-- The step moves forward from every progress. -/
def Walk.Forward (walk : Walk) : Prop :=
  ∀ progress outcome after, walk progress = some (outcome, after) →
    Progress.Advances progress after

namespace Source

theorem forward_resolve {visit : Cell → Walk} (h : ∀ cell, (visit cell).Forward)
    (source : Source) : Walk.Forward (source.resolve visit) := by
  intro progress outcome after hstep
  cases source with
  | value x =>
    cases hstep
    exact Progress.Advances.refl progress
  | cell target => exact h target progress outcome after hstep
  | faulty fault =>
    cases hstep
    exact Progress.Advances.refl progress

end Source

namespace Summand

theorem forward_resolve {visit : Cell → Walk} (h : ∀ cell, (visit cell).Forward)
    (operand : Summand) : Walk.Forward (operand.resolve visit) := by
  intro progress outcome after hstep
  unfold resolve at hstep
  split at hstep
  · cases hstep
  · rename_i heq
    cases hstep
    exact Source.forward_resolve h operand.source _ _ _ heq
  · rename_i heq
    cases hstep
    exact Source.forward_resolve h operand.source _ _ _ heq

end Summand

namespace Content

theorem forward_resolve {visit : Cell → Walk} (h : ∀ cell, (visit cell).Forward)
    (content : Content) : Walk.Forward (content.resolve visit) := by
  intro progress outcome after hstep
  cases content with
  | value x =>
    cases hstep
    exact Progress.Advances.refl progress
  | faulty fault =>
    cases hstep
    exact Progress.Advances.refl progress
  | single operand => exact Summand.forward_resolve h operand progress outcome after hstep
  | binary formula left operator right =>
    simp only [resolve] at hstep
    split at hstep
    · cases hstep
    · rename_i hleft
      cases hstep
      exact Summand.forward_resolve h left _ _ _ hleft
    · rename_i hleft
      have hfirst := Summand.forward_resolve h left _ _ _ hleft
      split at hstep
      · cases hstep
      · rename_i hright
        cases hstep
        exact hfirst.trans (Summand.forward_resolve h right _ _ _ hright)
      · rename_i hright
        cases hstep
        exact hfirst.trans (Summand.forward_resolve h right _ _ _ hright)

end Content

namespace Sheet

theorem forward_visit (sheet : Sheet) (fuel : Nat) (cell : Cell) :
    Walk.Forward (sheet.visit fuel cell) := by
  induction fuel generalizing cell with
  | zero =>
    intro progress outcome after h
    cases h
  | succ fuel ih =>
    intro progress outcome after h
    simp only [visit] at h
    split at h
    · cases h
      exact Progress.Advances.refl progress
    · cases h
      exact Progress.Advances.refl progress
    · have hstart : Progress.Advances progress (progress.set cell .inProgress) :=
        Progress.advances_set (by simp)
      cases hr : (sheet.content cell).resolve (sheet.visit fuel) (progress.set cell .inProgress)
        with
      | none =>
        rw [hr] at h
        cases h
      | some result =>
        obtain ⟨outcome', after'⟩ := result
        have hmove := hstart.trans (Content.forward_resolve (fun c => ih c) _ _ _ _ hr)
        rw [hr] at h
        cases outcome' with
        | error fault =>
          cases h
          exact hmove
        | ok x =>
          cases h
          exact hmove.trans (Progress.advances_set (by simp))

end Sheet

/-! ## The fuel suffices -/

/-- The step does not run out of fuel while fewer than `fuel` cells are not started. -/
def Walk.Suffices (sheet : Sheet) (fuel : Nat) (walk : Walk) : Prop :=
  ∀ progress, Progress.pending sheet progress < fuel → (walk progress).isSome

namespace Source

theorem suffices_resolve {sheet : Sheet} {fuel : Nat} {visit : Cell → Walk} {source : Source}
    (h : ∀ cell ∈ source.references, (visit cell).Suffices sheet fuel) :
    Walk.Suffices sheet fuel (source.resolve visit) := by
  intro progress hfuel
  cases source with
  | value x => rfl
  | cell target => exact h target (by simp [references]) progress hfuel
  | faulty fault => rfl

end Source

namespace Summand

theorem suffices_resolve {sheet : Sheet} {fuel : Nat} {visit : Cell → Walk} {operand : Summand}
    (h : ∀ cell ∈ operand.source.references, (visit cell).Suffices sheet fuel) :
    Walk.Suffices sheet fuel (operand.resolve visit) := by
  intro progress hfuel
  have hs := Source.suffices_resolve h progress hfuel
  unfold resolve
  split
  · rename_i heq
    rw [heq] at hs
    cases hs
  · rfl
  · rfl

end Summand

namespace Content

theorem suffices_resolve {sheet : Sheet} {fuel : Nat} {visit : Cell → Walk} {content : Content}
    (hforward : ∀ cell, (visit cell).Forward)
    (h : ∀ cell ∈ content.references, (visit cell).Suffices sheet fuel) :
    Walk.Suffices sheet fuel (content.resolve visit) := by
  intro progress hfuel
  cases content with
  | value x => rfl
  | faulty fault => rfl
  | single operand => exact Summand.suffices_resolve h progress hfuel
  | binary formula left operator right =>
    have hl : (left.resolve visit progress).isSome := Summand.suffices_resolve
      (fun cell hc => h cell (List.mem_append_left _ hc)) progress hfuel
    simp only [resolve]
    split
    · rename_i heq
      rw [heq] at hl
      cases hl
    · rfl
    · rename_i x after heq
      have hless : Progress.pending sheet after ≤ Progress.pending sheet progress :=
        Progress.pending_le_of_advances (Summand.forward_resolve hforward left _ _ _ heq)
      have hr : (right.resolve visit after).isSome := Summand.suffices_resolve
        (fun cell hc => h cell (List.mem_append_right _ hc)) after (by omega)
      split
      · rename_i heq'
        rw [heq'] at hr
        cases hr
      · rfl
      · rfl

end Content

namespace Sheet

/-- With more fuel than there are cells to start, a visit ends. -/
theorem isSome_visit {sheet : Sheet} {fuel : Nat} {cell : Cell} (hin : sheet.Contains cell) :
    Walk.Suffices sheet fuel (sheet.visit fuel cell) := by
  induction fuel generalizing cell with
  | zero =>
    intro progress hfuel
    omega
  | succ fuel ih =>
    intro progress hfuel
    simp only [visit]
    split
    · rfl
    · rfl
    · rename_i hstart
      have hless : Progress.pending sheet (progress.set cell .inProgress)
          < Progress.pending sheet progress := Progress.pending_set_lt hin hstart (by simp)
      have hsome : ((sheet.content cell).resolve (sheet.visit fuel)
          (progress.set cell .inProgress)).isSome :=
        Content.suffices_resolve (sheet.forward_visit fuel)
          (fun other ho => ih (contains_of_mem_references ho))
          (progress.set cell .inProgress) (by omega)
      cases hr : (sheet.content cell).resolve (sheet.visit fuel) (progress.set cell .inProgress)
        with
      | none =>
        rw [hr] at hsome
        cases hsome
      | some result =>
        obtain ⟨outcome, after⟩ := result
        cases outcome <;> rfl

def fuel (sheet : Sheet) : Nat := sheet.rowCount * sheet.columnCount + 1

theorem length_cells (sheet : Sheet) : sheet.cells.length = sheet.rowCount * sheet.columnCount := by
  have hrow : ∀ row, (sheet.rowCells row).length = sheet.columnCount := by
    intro row
    simp [rowCells]
  rw [cells, List.length_flatMap, List.map_congr_left fun row _ => hrow row, List.map_const',
    List.length_range, List.sum_replicate_nat]

theorem isSome_visit_fuel {sheet : Sheet} {cell : Cell} (hin : sheet.Contains cell)
    (progress : Progress) : (sheet.visit sheet.fuel cell progress).isSome := by
  refine isSome_visit hin progress ?_
  have h := Progress.pending_le_length sheet progress
  rw [length_cells] at h
  unfold fuel
  omega

def resolve (sheet : Sheet) (cell : Cell) (hin : sheet.Contains cell) (progress : Progress) :
    Outcome × Progress :=
  (sheet.visit sheet.fuel cell progress).get (isSome_visit_fuel hin progress)

theorem visit_eq_some_resolve {sheet : Sheet} {cell : Cell} (hin : sheet.Contains cell)
    (progress : Progress) :
    sheet.visit sheet.fuel cell progress = some (sheet.resolve cell hin progress) :=
  (Option.some_get _).symm

end Sheet
end Worksheet
