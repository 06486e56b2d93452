/-
A session with one evaluator, step by step.

The sheet is a copy of the rows that the session starts with, and a table that was handed out is
a copy of the values: a change to those rows, which stay with the caller, or to such a table
reaches no later answer but the one about that very table.
-/
import Worksheet.Evaluator.Basic

namespace Worksheet
namespace Evaluator

structure Session where
  host : Host
  evaluator : Evaluator
  /-- The table handed out last, with the changes made to it since. -/
  table : Option Table
  /-- The rows that the sheet was made from, with the changes made to them since. -/
  input : List (List String)

inductive Step where
  /-- A walk over all cells, and the time that it takes. -/
  | evaluateAll (took : Binary64 := 0)
  | evaluateCell (position : Position)
  | evaluateReference (label : String)
  | locate (label : String)
  | mark (position : Position)
  | marks
  | size
  | id
  /-- Changes the rows that the sheet was made from. -/
  | setInput (row column : Nat) (text : String)
  /-- Changes the table that was handed out last. -/
  | setResult (row column : Nat) (value : Binary64)
  | advance (ms : Binary64)

inductive Answer where
  | done
  | value (x : Binary64)
  | table (rows : Table)
  | cell (cell : Cell)
  | mark (mark : Mark)
  | marks (rows : List (List Mark))
  | size (rowCount columnCount : Nat)
  | text (s : String)
  | failed (fault : Fault)

namespace Session

/-- A session over a rectangular list of rows. -/
def start (host : Host) (logger : Logger) (id : String) (rows : List (List String)) :
    Except Fault Session :=
  match Sheet.ofRows rows with
  | .ok sheet => .ok ⟨host, Evaluator.start host logger id sheet, none, rows⟩
  | .error fault => .error fault

/-- Ends a step that asked for the value of a cell. -/
def respond (session : Session) : Response Binary64 → Answer × List Line × Session
  | (.ok x, lines, evaluator) => (.value x, lines, { session with evaluator := evaluator })
  | (.error fault, lines, evaluator) =>
    (.failed fault, lines, { session with evaluator := evaluator })

/-- Evaluates every cell, by a walk that takes that time. -/
def walk (session : Session) (took : Binary64) : Response Table :=
  session.evaluator.evaluateAll session.host (session.host.advance took)

/-- The answer, the lines and what comes after a step. -/
def step (session : Session) : Step → Answer × List Line × Session
  | .evaluateAll took =>
    let later := { session with host := session.host.advance took }
    match session.walk took with
    | (.ok rows, lines, evaluator) =>
      (.table rows, lines, { later with evaluator := evaluator, table := some rows })
    | (.error fault, lines, evaluator) =>
      (.failed fault, lines, { later with evaluator := evaluator })
  | .evaluateCell position =>
    session.respond (session.evaluator.evaluateCell session.host position)
  | .evaluateReference label =>
    session.respond (session.evaluator.evaluateReference session.host label)
  | .locate label =>
    match session.evaluator.sheet.atLabel label with
    | .ok cell => (.cell cell, [], session)
    | .error fault => (.failed fault, [], session)
  | .mark position =>
    match session.evaluator.sheet.markAt session.evaluator.progress position with
    | .ok mark => (.mark mark, [], session)
    | .error fault => (.failed fault, [], session)
  | .marks => (.marks session.evaluator.marks, [], session)
  | .size =>
    (.size session.evaluator.sheet.rowCount session.evaluator.sheet.columnCount, [], session)
  | .id => (.text session.evaluator.id, [], session)
  | .setInput row column text =>
    let changed := session.input.modify row fun texts => texts.set column text
    (.done, [], { session with input := changed })
  | .setResult row column x =>
    match session.table with
    | some rows =>
      let changed := rows.modify row fun values => values.set column x
      (.table changed, [], { session with table := some changed })
    | none => (.done, [], session)
  | .advance ms => (.done, [], { session with host := session.host.advance ms })

def run (session : Session) : List Step → List (Answer × List Line)
  | [] => []
  | step :: steps =>
    let (answer, lines, after) := session.step step
    (answer, lines) :: run after steps

end Session
end Evaluator
end Worksheet
