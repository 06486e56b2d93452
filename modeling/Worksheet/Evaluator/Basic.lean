/-
An evaluator: a sheet, how far its evaluation has come, and a log of what was asked.

The logger of an evaluator is a child of the one it was given and carries the identity of
the evaluation in its context, over whatever stood there under that key.  A request that
fails writes one entry about the fault; a request for all cells also writes entries when it
begins and when it ends.
-/
import Worksheet.Evaluation.Request
import Worksheet.Log.Logger

namespace Worksheet

structure Evaluator where
  sheet : Sheet
  progress : Progress
  logger : Logger
  id : String

namespace Evaluator

/-- The key of the identity in the context of every entry. -/
def idKey : String := "evaluationId"

/-- An evaluator of a sheet that nothing has been asked of before. -/
def start (host : Host) (logger : Logger) (id : String) (sheet : Sheet) : Evaluator :=
  ⟨sheet, Progress.fresh, logger.child host [(idKey, .string id)], id⟩

/-- What a request answers, the lines it writes and the evaluator after it. -/
abbrev Response (α : Type) := Except Fault α × List Line × Evaluator

/-- A fault as an entry of a log shows it. -/
def failureOf (host : Host) (fault : Fault) : Failure :=
  ⟨fault.name, fault.message, .string fault.code, host.runtime.stackOf fault⟩

def failureLines (evaluator : Evaluator) (host : Host) (fault : Fault) : List Line :=
  evaluator.logger.report host .error "Grid evaluation failed"
    (.failure (failureOf host fault)) .absent

def sizeFacts (evaluator : Evaluator) : Record :=
  [("rowCount", .number (.ofNat evaluator.sheet.rowCount)),
    ("columnCount", .number (.ofNat evaluator.sheet.columnCount))]

/-- Ends a request for one cell: only a failed one is logged. -/
def respond (evaluator : Evaluator) (host : Host) (result : Outcome × Progress) :
    Response Binary64 :=
  let lines :=
    match result.1 with
    | .ok _ => []
    | .error fault => evaluator.failureLines host fault
  (result.1, lines, { evaluator with progress := result.2 })

def evaluateCell (evaluator : Evaluator) (host : Host) (position : Position) :
    Response Binary64 :=
  evaluator.respond host (evaluator.sheet.evaluateCell position evaluator.progress)

def evaluateReference (evaluator : Evaluator) (host : Host) (label : String) :
    Response Binary64 :=
  evaluator.respond host (evaluator.sheet.evaluateReference label evaluator.progress)

/-- Evaluates every cell and times it.  The walk takes its time, so that the host is another one
when it has come to its end. -/
def evaluateAll (evaluator : Evaluator) (host ended : Host) : Response Table :=
  let timer := Timer.start evaluator.logger host "evaluateAll"
  let begun := evaluator.logger.write host .debug "Evaluating grid"
    (.record evaluator.sizeFacts) none
  let (result, progress) := evaluator.sheet.evaluateAll evaluator.progress
  let told :=
    match result with
    | .ok _ =>
      let (duration, timed) := timer.stop ended
      timed ++ evaluator.logger.write ended .debug "Grid evaluated"
        (.record (evaluator.sizeFacts ++ [("duration", .number duration)])) none
    | .error fault => evaluator.failureLines ended fault
  (result, begun ++ told, { evaluator with progress := progress })

def marks (evaluator : Evaluator) : List (List Mark) :=
  (List.range evaluator.sheet.rowCount).map fun row =>
    (evaluator.sheet.rowCells row).map evaluator.progress

end Evaluator
end Worksheet
