/-
Answers do not depend on history.

Each step of a session leaves the evaluator at rest, on the sheet it started with, and with
all that was done before (`step_continues`); a run of steps does so too (`after_continues`).
An evaluator at rest answers from its sheet, so an answer is the same after any steps as it
is before all of them.
-/
import Worksheet.Proofs.Evaluator
import Worksheet.Evaluator.Session

namespace Worksheet
namespace Evaluator

/-- The steps that ask about the sheet alone. -/
inductive Request where
  | evaluateAll
  | evaluateCell (position : Position)
  | evaluateReference (label : String)
  | locate (label : String)

/-- The step that asks, where a walk over all cells takes that time. -/
def Request.step (took : Binary64) : Request → Step
  | evaluateAll => .evaluateAll took
  | evaluateCell position => .evaluateCell position
  | evaluateReference label => .evaluateReference label
  | locate label => .locate label

/-- The steps that evaluate.  The others only look, or change something outside. -/
def Step.evaluates : Step → Bool
  | .evaluateAll _ => true
  | .evaluateCell _ => true
  | .evaluateReference _ => true
  | _ => false

/-- How a session shows the value of a cell. -/
def Answer.ofOutcome : Outcome → Answer
  | .ok x => .value x
  | .error fault => .failed fault

/-- How a session shows the values of all cells. -/
def Answer.ofTable : Except Fault Table → Answer
  | .ok rows => .table rows
  | .error fault => .failed fault

/-- How a session shows the cell that a label names. -/
def Answer.ofCell {sheet : Sheet} : Except Fault sheet.Member → Answer
  | .ok found => .cell found
  | .error fault => .failed fault

variable {fault : Fault}

theorem Answer.eq_ok_of_ofOutcome {outcome : Outcome} {x : Binary64}
    (h : Answer.ofOutcome outcome = .value x) : outcome = .ok x := by
  cases outcome <;> cases h
  rfl

theorem Answer.eq_error_of_ofOutcome {outcome : Outcome} (h : Answer.ofOutcome outcome = .failed fault) :
    outcome = .error fault := by
  cases outcome <;> cases h
  rfl

theorem Answer.eq_error_of_ofTable {result : Except Fault Table}
    (h : Answer.ofTable result = .failed fault) : result = .error fault := by
  cases result <;> cases h
  rfl

theorem Answer.eq_error_of_ofCell {sheet : Sheet} {result : Except Fault sheet.Member}
    (h : Answer.ofCell result = .failed fault) : result = .error fault := by
  cases result <;> cases h
  rfl

namespace Session

/-- The marks of a session. -/
abbrev progress (session : Session) : Progress := session.evaluator.progress

/-- A session over a sheet in which no step has been taken. -/
def fresh (host : Host) (logger : Logger) (id : String) (sheet : Sheet) : Session :=
  ⟨host, Evaluator.start host logger id sheet, none, sheet.rows⟩

theorem start_rows (host : Host) (logger : Logger) (id : String) (sheet : Sheet) :
    start host logger id sheet.rows = .ok (fresh host logger id sheet) := by
  rw [start, Sheet.ofRows_rows]
  rfl

/-! ## Runs -/

def after (session : Session) : List Step → Session
  | [] => session
  | step :: steps => after (session.step step).2.2 steps

theorem run_cons (session : Session) (step : Step) (steps : List Step) :
    session.run (step :: steps) =
      ((session.step step).1, (session.step step).2.1) :: run (session.step step).2.2 steps := rfl

/-- The answer and the lines in the middle of a run are those of the step taken there. -/
theorem getElem?_run (session : Session) (earlier : List Step) (step : Step)
    (later : List Step) :
    (session.run (earlier ++ step :: later))[earlier.length]? =
      some (((session.after earlier).step step).1, ((session.after earlier).step step).2.1) := by
  induction earlier generalizing session with
  | nil => rfl
  | cons first rest ih =>
    rw [List.cons_append, run_cons, List.length_cons, List.getElem?_cons_succ]
    exact ih (session.step first).2.2

/-! ## What a step leaves -/

variable {session : Session}

/-- A step that asks for one value changes no more than the evaluator. -/
theorem respond_eq (session : Session) (response : Response Binary64) :
    session.respond response =
      (Answer.ofOutcome response.1, response.2.1, { session with evaluator := response.2.2 }) := by
  obtain ⟨result, lines, evaluator⟩ := response
  cases result <;> rfl

theorem fst_respond (session : Session) (response : Response Binary64) :
    (session.respond response).1 = Answer.ofOutcome response.1 := by
  rw [respond_eq]

theorem evaluator_respond (session : Session) (response : Response Binary64) :
    (session.respond response).2.2.evaluator = response.2.2 := by
  rw [respond_eq]

/-- A request for all values changes the evaluator, the clock and, if it succeeds, the table. -/
theorem step_evaluateAll_eq (session : Session) (took : Binary64) :
    session.step (.evaluateAll took) =
      (Answer.ofTable (session.walk took).1, (session.walk took).2.1,
        { session with
          host := session.host.advance took
          evaluator := (session.walk took).2.2
          table := (session.walk took).1.toOption.or session.table }) := by
  simp only [step]
  generalize session.walk took = response
  obtain ⟨result, lines, evaluator⟩ := response
  cases result <;> rfl

theorem fst_step_evaluateAll (session : Session) (took : Binary64) :
    (session.step (.evaluateAll took)).1 = Answer.ofTable (session.walk took).1 := by
  rw [step_evaluateAll_eq]

theorem evaluator_step_evaluateAll (session : Session) (took : Binary64) :
    (session.step (.evaluateAll took)).2.2.evaluator = (session.walk took).2.2 := by
  rw [step_evaluateAll_eq]

theorem fst_step_locate (session : Session) (label : String) :
    (session.step (.locate label)).1 =
      Answer.ofCell (session.evaluator.sheet.atLabel label) := by
  simp only [step]
  cases session.evaluator.sheet.atLabel label <;> rfl

/-- What a step that evaluates nothing leaves: no line, the evaluator as it was, and a host
whose clock alone may have changed. -/
theorem step_quiet (session : Session) {step : Step} (h : step.evaluates = false) :
    (session.step step).2.1 = [] ∧ (session.step step).2.2.evaluator = session.evaluator ∧
      ∃ clock, (session.step step).2.2.host = { session.host with clock := clock } := by
  cases step with
  | evaluateAll took => cases h
  | evaluateCell position => cases h
  | evaluateReference label => cases h
  | locate label =>
    simp only [step]
    split <;> exact ⟨rfl, rfl, session.host.clock, rfl⟩
  | mark position =>
    simp only [step]
    split <;> exact ⟨rfl, rfl, session.host.clock, rfl⟩
  | setResult row column x =>
    simp only [step]
    split <;> exact ⟨rfl, rfl, session.host.clock, rfl⟩
  | marks => exact ⟨rfl, rfl, session.host.clock, rfl⟩
  | size => exact ⟨rfl, rfl, session.host.clock, rfl⟩
  | id => exact ⟨rfl, rfl, session.host.clock, rfl⟩
  | setInput row column text => exact ⟨rfl, rfl, session.host.clock, rfl⟩
  | advance ms => exact ⟨rfl, rfl, session.host.clock + ms, rfl⟩

theorem step_continues (h : session.evaluator.AtRest) (step : Step) :
    Continues session.evaluator (session.step step).2.2.evaluator := by
  cases step with
  | evaluateAll took =>
    rw [evaluator_step_evaluateAll]
    exact evaluateAll_continues session.host _ h
  | evaluateCell position =>
    rw [Session.step, evaluator_respond]
    exact evaluateCell_continues session.host h position
  | evaluateReference label =>
    rw [Session.step, evaluator_respond]
    exact evaluateReference_continues session.host h label
  | _ =>
    rw [(step_quiet session rfl).2.1]
    exact Continues.refl h

theorem after_continues (h : session.evaluator.AtRest) (steps : List Step) :
    Continues session.evaluator (session.after steps).evaluator := by
  induction steps generalizing session with
  | nil => exact Continues.refl h
  | cons step steps ih =>
    have hstep := step_continues h step
    exact hstep.trans (ih hstep.atRest)

theorem after_fresh_continues (host : Host) (logger : Logger) (id : String) (sheet : Sheet)
    (steps : List Step) :
    Continues (Evaluator.start host logger id sheet)
      ((fresh host logger id sheet).after steps).evaluator := by
  have hrest : (fresh host logger id sheet).evaluator.AtRest :=
    atRest_start host logger id sheet
  exact after_continues hrest steps

/-! ## Answers -/

/-- Two sessions at rest over one sheet answer a request alike. -/
theorem answer_eq {other : Session} (h : session.evaluator.AtRest)
    (ho : other.evaluator.AtRest) (hsheet : session.evaluator.sheet = other.evaluator.sheet)
    (request : Request) (took took' : Binary64) :
    (session.step (request.step took)).1 = (other.step (request.step took')).1 := by
  cases request with
  | evaluateAll =>
    simp only [Request.step, fst_step_evaluateAll, walk]
    rw [evaluateAll_answer_eq session.host _ other.host (other.host.advance took') h ho hsheet]
  | evaluateCell position =>
    simp only [Request.step, step, fst_respond]
    rw [evaluateCell_answer session.host h, evaluateCell_answer other.host ho, hsheet]
  | evaluateReference label =>
    simp only [Request.step, step, fst_respond]
    rw [evaluateReference_answer session.host h, evaluateReference_answer other.host ho, hsheet]
  | locate label =>
    simp only [Request.step, fst_step_locate]
    rw [hsheet]

/-- Whatever was done before, a cell is answered by its naive value or its naive fault. -/
theorem evaluateCell_answer_after (host : Host) (logger : Logger) (id : String) (sheet : Sheet)
    (steps : List Step) {position : Position} {cell : sheet.Member}
    (h : sheet.memberAt? position = some cell) :
    (((fresh host logger id sheet).after steps).step (.evaluateCell position)).1 =
      Answer.ofOutcome (sheet.naive [] cell) := by
  have hcontinues := after_fresh_continues host logger id sheet steps
  have hsheet : ((fresh host logger id sheet).after steps).evaluator.sheet = sheet :=
    hcontinues.sheet_eq
  have hfound : sheet.atPosition position = .ok cell := by
    simp only [Sheet.atPosition, h]
  simp only [step, fst_respond]
  rw [evaluateCell_answer _ hcontinues.atRest, hsheet, hfound]
  rfl

/-- Whatever was done before, a request is answered as by a fresh evaluator of the sheet. -/
theorem answer_after (host host' : Host) (logger logger' : Logger) (id id' : String)
    (sheet : Sheet) (steps : List Step) (request : Request) (took took' : Binary64) :
    (((fresh host logger id sheet).after steps).step (request.step took)).1 =
      ((fresh host' logger' id' sheet).step (request.step took')).1 := by
  have hcontinues := after_fresh_continues host logger id sheet steps
  exact answer_eq hcontinues.atRest (atRest_start host' logger' id' sheet) hcontinues.sheet_eq
    request took took'

/-- Each request of a run is answered as by a fresh evaluator of the sheet, so that a request
made twice is answered twice alike, whatever time it takes. -/
theorem run_answer_eq_fresh (host host' : Host) (logger logger' : Logger) (id id' : String)
    (sheet : Sheet) (request : Request) (took took' : Binary64) :
    (∀ earlier later, (((fresh host logger id sheet).run
        (earlier ++ request.step took :: later))[earlier.length]?).map Prod.fst =
      some ((fresh host' logger' id' sheet).step (request.step took')).1) ∧
    ∀ earlier middle later,
      (((fresh host logger id sheet).run (earlier ++ request.step took ::
        (middle ++ request.step took' :: later)))[earlier.length]?).map Prod.fst =
      (((fresh host logger id sheet).run (earlier ++ request.step took ::
        (middle ++ request.step took' :: later)))[(earlier ++ request.step took ::
          middle).length]?).map Prod.fst := by
  have hanswer : ∀ took earlier later, (((fresh host logger id sheet).run
      (earlier ++ request.step took :: later))[earlier.length]?).map Prod.fst =
        some ((fresh host' logger' id' sheet).step (request.step took')).1 := by
    intro took earlier later
    rw [getElem?_run, Option.map_some,
      answer_after host host' logger logger' id id' sheet earlier request took took']
  refine ⟨hanswer took, fun earlier middle later => ?_⟩
  have hlater := hanswer took' (earlier ++ request.step took :: middle) later
  rw [List.append_assoc, List.cons_append] at hlater
  rw [hanswer, hlater]

end Session
end Evaluator
end Worksheet
