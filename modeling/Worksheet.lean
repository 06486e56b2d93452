import Worksheet.Binary64.Basic
import Worksheet.Binary64.Decimal
import Worksheet.Binary64.Shortest
import Worksheet.Caught
import Worksheet.Check.Basic
import Worksheet.Check.Standard
import Worksheet.Evaluation.Content
import Worksheet.Evaluation.Progress
import Worksheet.Evaluation.Request
import Worksheet.Evaluation.Walk
import Worksheet.Evaluator.Basic
import Worksheet.Evaluator.Session
import Worksheet.Fault
import Worksheet.Formula.Basic
import Worksheet.Formula.Term
import Worksheet.Issue
import Worksheet.Json.Parser
import Worksheet.Json.Printer
import Worksheet.Label.Cell
import Worksheet.Label.Column
import Worksheet.Log.Instant.Basic
import Worksheet.Log.Instant.Draft
import Worksheet.Log.Instant.Reading
import Worksheet.Log.Instant.Token
import Worksheet.Log.Layout
import Worksheet.Log.Level
import Worksheet.Log.Logger
import Worksheet.Log.Redaction
import Worksheet.Log.Session
import Worksheet.Settings.Basic
import Worksheet.Settings.Cache
import Worksheet.Sheet.Basic
import Worksheet.Sheet.Blank
import Worksheet.Sheet.Input
import Worksheet.Text.Blank
import Worksheet.Text.Case
import Worksheet.Text.Half
import Worksheet.Value.Basic
import Worksheet.Proofs.Binary64.Whole
import Worksheet.Proofs.Reading
import Worksheet.Proofs.Naive
import Worksheet.Proofs.Walk
import Worksheet.Proofs.Request
import Worksheet.Proofs.Evaluator
import Worksheet.Proofs.Session
import Worksheet.Proofs.Equation
import Worksheet.Proofs.Solution
import Worksheet.Proofs.Invariant
import Worksheet.Proofs.Binary64.Natural
import Worksheet.Proofs.Label.Column
import Worksheet.Proofs.Label.Cell
import Worksheet.Proofs.Label.Bounds
import Worksheet.Proofs.Cause
import Worksheet.Proofs.Cycle
import Worksheet.Proofs.Formula.Split
import Worksheet.Proofs.Diagnosis
import Worksheet.Proofs.Input.Text
import Worksheet.Proofs.Log.Noninterference
import Worksheet.Proofs.Locality
import Worksheet.Proofs.Footprint
import Worksheet.Proofs.Record
import Worksheet.Proofs.Log.Notice
import Worksheet.Proofs.Settings.Cache
import Worksheet.Proofs.Depth
import Worksheet.Proofs.Settings.Readers
import Worksheet.Proofs.Input.Numbers
import Worksheet.Proofs.Trace
import Worksheet.Proofs.Decimal.Numeral
import Worksheet.Proofs.Label.RoundTrip
import Worksheet.Proofs.Formula.Literal
import Worksheet.Proofs.Lockstep
import Worksheet.Proofs.Substitution
import Worksheet.Proofs.Formula.Spelling
import Worksheet.Proofs.Respelling
import Worksheet.Proofs.Formula.Renaming
import Worksheet.Proofs.Rearrangement
import Worksheet.Proofs.Json.Line
import Worksheet.Proofs.Log.Redaction
import Worksheet.Proofs.Log.Child
import Worksheet.Proofs.Log.Line
import Worksheet.Proofs.Log.Word
import Worksheet.Proofs.Label.Order
import Worksheet.Proofs.Formula.Tokens
import Worksheet.Proofs.Log.Colour
import Worksheet.Proofs.Log.Filtering
import Worksheet.Proofs.Label.Positional
import Worksheet.Proofs.Label.Agreement
