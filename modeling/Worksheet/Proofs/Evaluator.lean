/-
An evaluator answers from its sheet.

What an evaluator remembers changes how long it takes and nothing else: from every state that
it can be in between two requests it gives the naive answers.  What is said here is said of
one request; the host and the logger go into the lines that are written and not into an
answer.
-/
import Worksheet.Proofs.Request
import Worksheet.Evaluator.Basic

namespace Worksheet
namespace Evaluator

/-- Between two requests: nothing is in progress, and what is done is sound. -/
def AtRest (evaluator : Evaluator) : Prop := evaluator.progress.AtRest evaluator.sheet

theorem atRest_start (host : Host) (logger : Logger) (id : String) (sheet : Sheet) :
    (start host logger id sheet).AtRest :=
  Progress.atRest_fresh sheet

variable {evaluator : Evaluator} (host ended : Host)

/-! ## Answers -/

theorem evaluateCell_answer (h : evaluator.AtRest) (position : Position) :
    (evaluator.evaluateCell host position).1 =
      (evaluator.sheet.atPosition position).bind (evaluator.sheet.naive []) :=
  Sheet.evaluate_answer h _

theorem evaluateReference_answer (h : evaluator.AtRest) (label : String) :
    (evaluator.evaluateReference host label).1 =
      (evaluator.sheet.atLabel label).bind (evaluator.sheet.naive []) :=
  Sheet.evaluate_answer h _

theorem evaluateAll_answer : (evaluator.evaluateAll host ended).1 =
    (evaluator.sheet.evaluateAll evaluator.progress).1 := rfl

theorem evaluateAll_eq_ok_iff (h : evaluator.AtRest) (table : Table) :
    (evaluator.evaluateAll host ended).1 = .ok table ↔ evaluator.sheet.IsNaiveTable table := by
  rw [evaluateAll_answer]
  exact Sheet.evaluateAll_eq_ok_iff h table

theorem evaluateAll_eq_error_iff (h : evaluator.AtRest) (fault : Fault) :
    (evaluator.evaluateAll host ended).1 = .error fault ↔
      evaluator.sheet.IsFirstNaiveFault fault := by
  rw [evaluateAll_answer]
  exact Sheet.evaluateAll_eq_error_iff h fault

/-- Two evaluators of one sheet give one answer about all cells, whatever they have done. -/
theorem evaluateAll_answer_eq {other : Evaluator} (host' ended' : Host) (h : evaluator.AtRest)
    (ho : other.AtRest) (hsheet : evaluator.sheet = other.sheet) :
    (evaluator.evaluateAll host ended).1 = (other.evaluateAll host' ended').1 := by
  cases hanswer : (other.evaluateAll host' ended').1 with
  | ok table =>
    rw [evaluateAll_eq_ok_iff host ended h, hsheet]
    exact (evaluateAll_eq_ok_iff host' ended' ho table).mp hanswer
  | error fault =>
    rw [evaluateAll_eq_error_iff host ended h, hsheet]
    exact (evaluateAll_eq_error_iff host' ended' ho fault).mp hanswer

/-- A fresh evaluator gives, for one cell and for all cells, what evaluation without a memory
gives, faults included. -/
theorem start_refines_naive (host host' ended : Host) (logger : Logger) (id : String)
    (sheet : Sheet) :
    (∀ position, ((start host logger id sheet).evaluateCell host' position).1 =
      match sheet.memberAt? position with
      | some cell => sheet.naive [] cell
      | none => .error (sheet.outOfRange (Sheet.describe position))) ∧
    (∀ table, ((start host logger id sheet).evaluateAll host' ended).1 = .ok table ↔
      sheet.IsNaiveTable table) ∧
    ∀ fault, ((start host logger id sheet).evaluateAll host' ended).1 = .error fault ↔
      sheet.IsFirstNaiveFault fault := by
  have hrest := atRest_start host logger id sheet
  refine ⟨fun position => ?_, evaluateAll_eq_ok_iff host' ended hrest,
    evaluateAll_eq_error_iff host' ended hrest⟩
  rw [evaluateCell_answer host' hrest position]
  show (sheet.atPosition position).bind (sheet.naive []) = _
  unfold Sheet.atPosition
  cases sheet.memberAt? position <;> rfl

/-! ## What comes after

A request changes the progress of an evaluator and nothing else of it. -/

theorem evaluateCell_after (position : Position) : (evaluator.evaluateCell host position).2.2 =
    { evaluator with
      progress := (evaluator.sheet.evaluateCell position evaluator.progress).2 } := rfl

theorem evaluateReference_after (label : String) : (evaluator.evaluateReference host label).2.2 =
    { evaluator with
      progress := (evaluator.sheet.evaluateReference label evaluator.progress).2 } := rfl

theorem evaluateAll_after : (evaluator.evaluateAll host ended).2.2 =
    { evaluator with progress := (evaluator.sheet.evaluateAll evaluator.progress).2 } := rfl

/-- The later evaluator is at rest, works on the same sheet and has all that the earlier one
had done. -/
structure Continues (earlier later : Evaluator) : Prop where
  sheet_eq : later.sheet = earlier.sheet
  atRest : later.AtRest
  keeps : earlier.progress.Keeps later.progress

theorem Continues.refl (h : evaluator.AtRest) : Continues evaluator evaluator :=
  ⟨rfl, h, Progress.Keeps.refl _⟩

theorem Continues.trans {a b c : Evaluator} (hab : Continues a b) (hbc : Continues b c) :
    Continues a c :=
  ⟨hbc.sheet_eq.trans hab.sheet_eq, hbc.atRest, hab.keeps.trans hbc.keeps⟩

theorem evaluateCell_continues (h : evaluator.AtRest) (position : Position) :
    Continues evaluator (evaluator.evaluateCell host position).2.2 := by
  rw [evaluateCell_after]
  exact ⟨rfl, Sheet.evaluate_atRest h _, Sheet.keeps_evaluate h _⟩

theorem evaluateReference_continues (h : evaluator.AtRest) (label : String) :
    Continues evaluator (evaluator.evaluateReference host label).2.2 := by
  rw [evaluateReference_after]
  exact ⟨rfl, Sheet.evaluate_atRest h _, Sheet.keeps_evaluate h _⟩

theorem evaluateAll_continues (h : evaluator.AtRest) :
    Continues evaluator (evaluator.evaluateAll host ended).2.2 := by
  rw [evaluateAll_after]
  exact ⟨rfl, Sheet.evaluateAll_atRest h, Sheet.keeps_evaluateAll h⟩

end Evaluator
end Worksheet
