/-
The state of an evaluator between two calls.

`Progress.Consistent` is what can be seen in the marks from outside: none is left over from a
walk, and what is done is a part of the sheet that is closed under references and solves the
equations of its cells.  It follows from the marks being at rest, which every step keeps up.
-/
import Worksheet.Proofs.Equation
import Worksheet.Proofs.Session

namespace Worksheet

open Binary64

namespace Progress

/-- The exact value that is stored for a cell. -/
def stored (progress : Progress) (cell : Cell) : Int := (progress cell).value.toInt?.getD 0

/-- No cell is in progress, and the cells that are done have their equations satisfied by
safe numbers that are stored for cells that are done as well. -/
structure Consistent (sheet : Sheet) (progress : Progress) : Prop where
  idle : ∀ cell : sheet.Member, progress cell ≠ .inProgress
  wellFormed : ∀ (cell : sheet.Member) x, progress cell = .done x → sheet.WellFormed cell
  closed : ∀ (cell : sheet.Member) x, progress cell = .done x →
    ∀ position, sheet.Mentions cell position →
      ∃ target y, sheet.memberAt? position = some target ∧ progress target = .done y
  equation : ∀ (cell : sheet.Member) x, progress cell = .done x →
    ∃ n, x.toInt? = some n ∧ sheet.Yields (fun target => progress.stored target) cell n
  safe : ∀ (cell : sheet.Member) x, progress cell = .done x →
    x.isSafe = true ∧ x ≠ zero true

variable {sheet : Sheet} {progress : Progress} {cell : sheet.Member} {x : Binary64}

theorem Sound.interpret_eq_ok (hs : progress.Sound sheet) (hdone : progress cell = .done x) :
    sheet.interpret (sheet.naive [cell]) cell = .ok x :=
  Sheet.interpret_of_naive_eq_ok (hs.value cell x hdone)

theorem Sound.stored_eq_amount (hs : progress.Sound sheet) (hdone : progress cell = .done x) :
    progress.stored cell = sheet.amount cell := by
  have hvalue := hs.value cell x hdone
  unfold stored Sheet.amount
  rw [hvalue, hdone]
  rfl

theorem AtRest.consistent (h : progress.AtRest sheet) : progress.Consistent sheet where
  idle cell hprogress := List.not_mem_nil ((h.idle cell).mp hprogress)
  wellFormed cell x hdone := Sheet.wellFormed_of_eq_ok (h.sound.interpret_eq_ok hdone)
  closed cell x hdone position hm := by
    obtain ⟨target, hfound, hr⟩ :=
      Sheet.refers_of_mentions (h.sound.interpret_eq_ok hdone) hm
    obtain ⟨y, hy⟩ := h.sound.closed cell target x hdone hr
    exact ⟨target, y, hfound, hy⟩
  equation cell x hdone := by
    obtain ⟨hexact, hyields⟩ := Sheet.naive_exact (h.sound.value cell x hdone)
    refine ⟨sheet.amount cell, hexact.toInt?_eq, hyields.congr fun target hr => ?_⟩
    obtain ⟨y, hy⟩ := h.sound.closed cell target x hdone hr
    exact (h.sound.stored_eq_amount hy).symm
  safe cell x hdone := by
    have hexact := (Sheet.naive_exact (h.sound.value cell x hdone)).1
    exact ⟨hexact.isSafe_eq, hexact.ne_negative_zero⟩

theorem Consistent.notStarted (h : progress.Consistent sheet)
    (hdone : ¬ ∃ x, progress cell = .done x) : progress cell = .notStarted := by
  cases hmark : progress cell with
  | notStarted => rfl
  | inProgress => exact absurd hmark (h.idle cell)
  | done x => exact absurd ⟨x, hmark⟩ hdone

end Progress

namespace Evaluator
namespace Session

theorem consistent_of_continues {host : Host} {logger : Logger} {id : String} {sheet : Sheet}
    {later : Evaluator} (h : Continues (Evaluator.start host logger id sheet) later) :
    later.progress.Consistent sheet := by
  have hrest : later.progress.AtRest later.sheet := h.atRest
  rw [h.sheet_eq] at hrest
  exact hrest.consistent

/-- After any steps the marks are consistent, and one more step, whatever it answers, keeps
what is done and leaves the rest as if it was never started. -/
theorem consistent_after (host : Host) (logger : Logger) (id : String) (sheet : Sheet)
    (steps : List Step) :
    ((fresh host logger id sheet).after steps).progress.Consistent sheet ∧
    ∀ step,
      Progress.Keeps ((fresh host logger id sheet).after steps).progress
        (((fresh host logger id sheet).after steps).step step).2.2.progress ∧
      ∀ cell : sheet.Member,
        (∃ x, (((fresh host logger id sheet).after steps).step step).2.2.progress cell =
          .done x) ∨
        (((fresh host logger id sheet).after steps).step step).2.2.progress cell =
          .notStarted := by
  have hsteps := after_fresh_continues host logger id sheet steps
  refine ⟨consistent_of_continues hsteps, fun step => ?_⟩
  have hstep := step_continues hsteps.atRest step
  have hlater := consistent_of_continues (hsteps.trans hstep)
  refine ⟨hstep.keeps, fun cell => ?_⟩
  by_cases hdone : ∃ x, (((fresh host logger id sheet).after steps).step
      step).2.2.progress cell = .done x
  · exact .inl hdone
  · exact .inr (hlater.notStarted hdone)

end Session
end Evaluator
end Worksheet
