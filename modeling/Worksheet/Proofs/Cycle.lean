/-
A cycle is reported where there is one, and nowhere else.

The marks of a walk stand in for the path to the cell at hand, and the naive evaluation has the
path itself, so it is enough to look at that.  A cell that is met again on its own path is
needed for itself, and a cell with a value, or one behind it, never is.
-/
import Worksheet.Proofs.Cause
import Worksheet.Proofs.Session

namespace Worksheet
namespace Sheet

variable {sheet : Sheet} {path : List sheet.Member} {cell target : sheet.Member}

theorem exists_onCycle_of_naive {label : String}
    (h : sheet.naive [] cell = .error (.circularReference label)) :
    ∃ target, sheet.Reaches cell target ∧ sheet.OnCycle target ∧ label = target.1.label := by
  obtain ⟨target, hreach, hcause⟩ := naive_eq_error h
  rcases hcause with ⟨hfault, hmem | hcycle⟩ | ⟨route, hown⟩
  · exact absurd hmem List.not_mem_nil
  · exact ⟨target, hreach, hcycle, Fault.circularReference.inj hfault⟩
  · exact absurd rfl (hown.ne_circularReference label)

/-- Behind a cell with a value all cells have one. -/
theorem naive_eq_ok_of_reaches {x : Binary64} (h : sheet.naive path cell = .ok x)
    (hr : sheet.Reaches cell target) : ∃ route y, sheet.naive route target = .ok y := by
  induction hr with
  | refl => exact ⟨path, x, h⟩
  | tail hfront hstep ih =>
    obtain ⟨route, y, hy⟩ := ih
    obtain ⟨z, hz⟩ := eq_ok_of_refers (interpret_of_naive_eq_ok hy) hstep
    exact ⟨_, z, hz⟩

theorem naive_ne_ok_of_onCycle (hr : sheet.Reaches cell target) (hcycle : sheet.OnCycle target)
    (x : Binary64) : sheet.naive path cell ≠ .ok x := by
  intro h
  obtain ⟨route, y, hy⟩ := naive_eq_ok_of_reaches h hr
  exact not_cyclic_of_naive_eq_ok hy hcycle

end Sheet

namespace Evaluator
namespace Session

/-- In every state of an evaluator a cell is answered with a cycle only if it reaches one, and
the label is that of a cell on it; it has no value if it reaches a cycle. -/
theorem evaluateCell_cycle_exact (host : Host) (logger : Logger) (id : String) (sheet : Sheet)
    (steps : List Step) (position : Position) (cell : sheet.Member)
    (h : sheet.memberAt? position = some cell) :
    (∀ label, (((fresh host logger id sheet).after steps).step (.evaluateCell position)).1 =
        .failed (.circularReference label) →
      ∃ target, sheet.Reaches cell target ∧ sheet.OnCycle target ∧ label = target.1.label ∧
        (target.1.column < Binary64.maxSafe →
          CellLabel.ofPosition target.1.position = .ok label)) ∧
    ((∃ target, sheet.Reaches cell target ∧ sheet.OnCycle target) →
      ∃ fault, (((fresh host logger id sheet).after steps).step (.evaluateCell position)).1 =
        .failed fault) ∧
    ((∀ target, sheet.Reaches cell target → ¬ sheet.OnCycle target) →
      ∀ label, (((fresh host logger id sheet).after steps).step (.evaluateCell position)).1 ≠
        .failed (.circularReference label)) := by
  rw [evaluateCell_answer_after host logger id sheet steps h]
  have hcircular : ∀ label, Answer.ofOutcome (sheet.naive [] cell) =
      .failed (.circularReference label) →
        ∃ target, sheet.Reaches cell target ∧ sheet.OnCycle target ∧ label = target.1.label := by
    intro label hanswer
    cases hnaive : sheet.naive [] cell with
    | ok x =>
      rw [hnaive] at hanswer
      cases hanswer
    | error fault =>
      rw [hnaive] at hanswer
      cases hanswer
      exact Sheet.exists_onCycle_of_naive hnaive
  refine ⟨fun label hanswer => ?_, ?_, fun hnone label hanswer => ?_⟩
  · obtain ⟨target, hreach, hcycle, rfl⟩ := hcircular label hanswer
    exact ⟨target, hreach, hcycle, rfl, Cell.ofPosition_position⟩
  · rintro ⟨target, hreach, hcycle⟩
    cases hnaive : sheet.naive [] cell with
    | ok x => exact absurd hnaive (Sheet.naive_ne_ok_of_onCycle hreach hcycle x)
    | error fault => exact ⟨fault, rfl⟩
  · obtain ⟨target, hreach, hcycle, -⟩ := hcircular label hanswer
    exact hnone target hreach hcycle

/-- Of two cells that refer to each other, the one that is asked for is reported. -/
theorem evaluateCell_cycle_exact_pair :
    let sheet : Sheet := ⟨[["=B1", "=A1"]], by decide⟩
    let cell : sheet.Member := ⟨⟨0, 0⟩, by decide⟩
    let host : Host := ⟨"", 0, 0, [], 0, 0⟩
    let session := (fresh host (.mute host) "" sheet).after [.evaluateAll]
    sheet.memberAt? ⟨0, 0⟩ = some cell ∧
      (session.step (.evaluateCell ⟨0, 0⟩)).1 = .failed (.circularReference "A1") ∧
      ∃ target, sheet.Reaches cell target ∧ sheet.OnCycle target ∧ "A1" = target.1.label := by
  intro sheet cell host session
  have hcell : sheet.memberAt? ⟨0, 0⟩ = some cell := by decide +kernel
  have hanswer : (session.step (.evaluateCell ⟨0, 0⟩)).1 = .failed (.circularReference "A1") := by
    have hresult : (session.evaluator.evaluateCell session.host ⟨0, 0⟩).1 =
        .error (.circularReference "A1") := by decide +kernel
    simp only [step, fst_respond, hresult, Answer.ofOutcome]
  obtain ⟨target, hreach, hcycle, hlabel, -⟩ :=
    (evaluateCell_cycle_exact host (.mute host) "" sheet [.evaluateAll] ⟨0, 0⟩ cell hcell).1 "A1"
      hanswer
  exact ⟨hcell, hanswer, target, hreach, hcycle, hlabel⟩

end Session
end Evaluator
end Worksheet
