/-
What a request leaves behind.

A request for a cell that has a value makes exactly the cells done that the cell reaches, whatever
was done before; one that fails makes some of them done, each with the value that it has on its
own, and leaves the cell itself as if it was never started.  A request for all cells that fails
has done all the cells before the first one that fails on its own.  Both halves of the first law
come from marks that are sound: nothing is done that was not asked for, and what is done refers
to cells that are done.
-/
import Worksheet.Proofs.Session

namespace Worksheet

namespace Progress

def Done (progress : Progress) (cell : Cell) : Prop := ∃ x, progress cell = .done x

theorem AtRest.notStarted {sheet : Sheet} {progress : Progress} (h : progress.AtRest sheet)
    {cell : sheet.Member} {fault : Fault} (hfault : sheet.naive [] cell = .error fault) :
    progress cell = .notStarted := by
  cases hmark : progress cell with
  | notStarted => rfl
  | inProgress => exact absurd ((h.idle cell).mp hmark) List.not_mem_nil
  | done x =>
    rw [h.sound.value cell x hmark] at hfault
    cases hfault

end Progress

namespace Sheet

variable {sheet : Sheet} {before : Progress} {cell target : sheet.Member} {x y : Binary64}

theorem close_eq_done_iff {α : Type} {response : Except Fault α × Progress} {cell : Cell} :
    (close response).2 cell = .done x ↔ response.2 cell = .done x := by
  obtain ⟨result, after⟩ := response
  cases result with
  | ok answer => rfl
  | error fault => exact Progress.settle_eq_done_iff

/-- What is done after a request was done before or is reached from the cell. -/
theorem reaches_of_evaluate (h : before.AtRest sheet)
    (hdone : (sheet.evaluate (.ok cell) before).2 target = .done y) :
    before target = .done y ∨ sheet.Reaches cell target := by
  rcases (resolve_ends h cell).reached target y (close_eq_done_iff.mp hdone) with
    hold | ⟨_, rfl, hr⟩
  · exact .inl hold
  · exact .inr hr

/-- A request that has a value makes exactly what the cell reaches done. -/
theorem done_evaluate_iff (h : before.AtRest sheet)
    (hvalue : (sheet.evaluate (.ok cell) before).1 = .ok x) :
    (sheet.evaluate (.ok cell) before).2.Done target ↔
      before.Done target ∨ sheet.Reaches cell target := by
  constructor
  · rintro ⟨y, hy⟩
    rcases reaches_of_evaluate h hy with hold | hr
    · exact .inl ⟨y, hold⟩
    · exact .inr hr
  · rintro (⟨y, hy⟩ | hr)
    · exact ⟨y, keeps_evaluate h (.ok cell) target y hy⟩
    · have hresult : (sheet.resolve cell cell.2 before).1 = .ok x :=
        (fst_close _ _).symm.trans hvalue
      obtain ⟨z, hz⟩ := (resolve_ends h cell).done x hresult cell rfl
      exact (evaluate_atRest h (.ok cell)).sound.done_of_reaches (close_eq_done_iff.mpr hz) hr

/-- The cell comes to the outcome when nothing but it is asked of the sheet. -/
structure Alone (sheet : Sheet) (cell : sheet.Member) (outcome : Outcome) : Prop where
  result_eq : (sheet.evaluate (.ok cell) Progress.fresh).1 = outcome
  answer_eq : ∀ host logger id position, sheet.memberAt? position = some cell →
    ((Evaluator.Session.fresh host logger id sheet).step (.evaluateCell position)).1 =
      Evaluator.Answer.ofOutcome outcome

theorem alone_naive (cell : sheet.Member) : sheet.Alone cell (sheet.naive [] cell) where
  result_eq := evaluate_answer (Progress.atRest_fresh sheet) (.ok cell)
  answer_eq host logger id _ hfound :=
    Evaluator.Session.evaluateCell_answer_after host logger id sheet [] hfound

theorem alone_of_done (h : before.AtRest sheet) (hdone : before target = .done y) :
    sheet.Alone target (.ok y) := h.sound.value target y hdone ▸ sheet.alone_naive target

end Sheet

namespace Evaluator

/-- The request is for the value of the cell. -/
inductive Request.AsksFor (sheet : Sheet) : Request → sheet.Member → Prop
  | position {position cell} (found : sheet.memberAt? position = some cell) :
      AsksFor sheet (.evaluateCell position) cell
  | label {label cell} (found : sheet.atLabel label = .ok cell) :
      AsksFor sheet (.evaluateReference label) cell

namespace Session

open Progress

variable {session : Session} {sheet : Sheet}

theorem step_asksFor (hsheet : session.evaluator.sheet = sheet) {request : Request}
    {cell : sheet.Member} (h : request.AsksFor sheet cell) (took : Binary64) :
    (session.step (request.step took)).1 =
        Answer.ofOutcome (sheet.evaluate (.ok cell) session.progress).1 ∧
      (session.step (request.step took)).2.2.progress =
        (sheet.evaluate (.ok cell) session.progress).2 := by
  subst hsheet
  cases h with
  | @position position _ hfound =>
    have hcell : session.evaluator.sheet.atPosition position = .ok cell := by
      simp only [Sheet.atPosition, hfound]
    simp only [Request.step, step, fst_respond, progress, evaluator_respond, evaluateCell_after]
    rw [← hcell]
    exact ⟨rfl, rfl⟩
  | @label label _ hfound =>
    simp only [Request.step, step, fst_respond, progress, evaluator_respond,
      evaluateReference_after]
    rw [← hfound]
    exact ⟨rfl, rfl⟩

theorem step_evaluateAll (hsheet : session.evaluator.sheet = sheet) (took : Binary64) :
    (session.step (.evaluateAll took)).1 =
        Answer.ofTable (sheet.evaluateAll session.progress).1 ∧
      (session.step (.evaluateAll took)).2.2.progress =
        (sheet.evaluateAll session.progress).2 := by
  subst hsheet
  refine ⟨fst_step_evaluateAll session took, ?_⟩
  rw [progress, evaluator_step_evaluateAll]
  rfl

/-- In every state of an evaluator, a request for a cell makes done what the cell reaches and
nothing else if it has a value.  If it fails, it makes done only cells that are reached and have
the stored value on their own, and leaves the cell not started.  A request for all cells that
fails leaves the first cell that fails on its own not started, and all cells before it done. -/
theorem footprint_exact (host : Host) (logger : Logger) (id : String) (sheet : Sheet)
    (steps : List Step) (took : Binary64) :
    (∀ (request : Request) (cell : sheet.Member), request.AsksFor sheet cell →
      (∀ x, (((fresh host logger id sheet).after steps).step (request.step took)).1 = .value x →
        ∀ target : sheet.Member,
          (((fresh host logger id sheet).after steps).step
              (request.step took)).2.2.progress.Done target ↔
            ((fresh host logger id sheet).after steps).progress.Done target ∨
              sheet.Reaches cell target) ∧
      (∀ fault, (((fresh host logger id sheet).after steps).step (request.step took)).1 =
          .failed fault →
        (((fresh host logger id sheet).after steps).step (request.step took)).2.2.progress cell =
          .notStarted ∧
        ∀ (target : sheet.Member) y,
          (((fresh host logger id sheet).after steps).step
              (request.step took)).2.2.progress target = .done y →
            ((fresh host logger id sheet).after steps).progress target = .done y ∨
              sheet.Reaches cell target ∧ sheet.Alone target (.ok y))) ∧
    (∀ fault, (((fresh host logger id sheet).after steps).step (.evaluateAll took)).1 =
        .failed fault →
      ∃ first : sheet.Member, sheet.Alone first (.error fault) ∧
        (((fresh host logger id sheet).after steps).step
            (.evaluateAll took)).2.2.progress first = .notStarted ∧
        ∀ other : sheet.Member, other.1.Precedes first.1 →
          ∃ y, sheet.Alone other (.ok y) ∧
            (((fresh host logger id sheet).after steps).step
                (.evaluateAll took)).2.2.progress other = .done y) := by
  have hcontinues := after_fresh_continues host logger id sheet steps
  generalize (fresh host logger id sheet).after steps = session at hcontinues
  have hsheet : session.evaluator.sheet = sheet := hcontinues.sheet_eq
  have hrest : session.progress.AtRest sheet := by
    rw [← hsheet]
    exact hcontinues.atRest
  refine ⟨fun request cell hasks => ?_, fun fault hfailed => ?_⟩
  · obtain ⟨hanswer, hafter⟩ := step_asksFor hsheet hasks took
    rw [hanswer, hafter]
    refine ⟨fun x hx target => ?_, fun fault hfault => ?_⟩
    · exact Sheet.done_evaluate_iff hrest (Answer.eq_ok_of_ofOutcome hx)
    · have hnaive := Answer.eq_error_of_ofOutcome hfault
      rw [Sheet.evaluate_answer hrest] at hnaive
      have hlast := Sheet.evaluate_atRest hrest (.ok cell)
      refine ⟨hlast.notStarted hnaive, fun target y hdone => ?_⟩
      rcases Sheet.reaches_of_evaluate hrest hdone with hold | hr
      · exact .inl hold
      · exact .inr ⟨hr, Sheet.alone_of_done hlast hdone⟩
  · obtain ⟨hanswer, hafter⟩ := step_evaluateAll hsheet took
    rw [hanswer] at hfailed
    obtain ⟨first, hnaive, hdone⟩ :=
      Sheet.evaluateAll_eq_error hrest (Answer.eq_error_of_ofTable hfailed)
    have hlast := Sheet.evaluateAll_atRest hrest
    rw [hafter]
    refine ⟨first, hnaive ▸ sheet.alone_naive first, hlast.notStarted hnaive,
      fun other hlt => ?_⟩
    obtain ⟨y, hy⟩ := hdone other hlt
    exact ⟨y, Sheet.alone_of_done hlast hy, hy⟩

/-- After a failed request for a third cell, one for the first makes the second done as well and
leaves the third alone, which the request for all cells then stops at. -/
theorem footprint_exact_three :
    let sheet : Sheet := ⟨[["=B1", "3", "x"]], by decide⟩
    let host : Host := ⟨"", 0, 0, [], 0, 0⟩
    let session := (fresh host (.mute host) "" sheet).after [.evaluateCell ⟨0, 2⟩]
    (session.step (.evaluateReference "a1")).1 = .value 3 ∧
      (session.step (.evaluateReference "a1")).2.2.progress.Done ⟨0, 1⟩ ∧
      ¬ (session.step (.evaluateReference "a1")).2.2.progress.Done ⟨0, 2⟩ ∧
      ∃ first : sheet.Member, sheet.Alone first (.error (.invalidCellValue "C1" 1 3 "x")) ∧
        (session.step .evaluateAll).2.2.progress first = .notStarted := by
  intro sheet host session
  have hfound : sheet.atLabel "a1" = .ok ⟨⟨0, 0⟩, by decide⟩ := by decide +kernel
  have hvalue : (session.step (.evaluateReference "a1")).1 = .value 3 := by
    have hresult : (session.evaluator.evaluateReference session.host "a1").1 = .ok 3 := by
      decide +kernel
    simp only [step, fst_respond, hresult, Answer.ofOutcome]
  have hfailed : (session.step .evaluateAll).1 =
      .failed (.invalidCellValue "C1" 1 3 "x") := by
    have hresult : (session.walk 0).1 =
        .error (.invalidCellValue "C1" 1 3 "x") := by decide +kernel
    rw [fst_step_evaluateAll, hresult]
    rfl
  obtain ⟨hcell, hall⟩ := footprint_exact host (.mute host) "" sheet [.evaluateCell ⟨0, 2⟩] 0
  have hdone := (hcell (.evaluateReference "a1") _ (.label hfound)).1 3 hvalue
  have hsession : (fresh host (.mute host) "" sheet).after [.evaluateCell ⟨0, 2⟩] = session := rfl
  rw [hsession] at hall hdone
  simp only [Request.step] at hdone
  obtain ⟨first, halone, hfirst, -⟩ := hall _ hfailed
  have hreached : sheet.Reaches ⟨⟨0, 0⟩, by decide⟩ ⟨⟨0, 1⟩, by decide⟩ := by
    have hformula : Formula.parse "B1" = .ok (.single ⟨.plus, "B1"⟩) := by decide +kernel
    have hterm : Term.parse "B1" = .ok (.reference "B1" ⟨0, 1⟩) := by decide +kernel
    exact .single ⟨_, _, ⟨['B', '1'], by decide +kernel, hformula⟩, List.mem_singleton_self _,
      "B1", ⟨0, 1⟩, hterm, by decide +kernel⟩
  have hbefore : ¬ session.progress.Done ⟨0, 2⟩ := by
    rintro ⟨x, hx⟩
    have hmark : session.progress ⟨0, 2⟩ = .notStarted := by decide +kernel
    rw [hmark] at hx
    cases hx
  have hnone : ¬ (session.step (.evaluateReference "a1")).2.2.progress.Done ⟨0, 2⟩ := by
    intro hlast
    rcases (hdone ⟨⟨0, 2⟩, by decide⟩).mp hlast with hdone | hr
    · exact hbefore hdone
    · have hmem : (⟨0, 2⟩ : Cell) ∈ [(⟨0, 0⟩ : Cell), ⟨0, 1⟩] :=
        Sheet.mem_of_reaches (by decide +kernel) (by decide) hr
      exact absurd hmem (by decide)
  exact ⟨hvalue, (hdone ⟨⟨0, 1⟩, by decide⟩).mpr (.inr hreached), hnone, first, halone, hfirst⟩

end Session
end Evaluator
end Worksheet
