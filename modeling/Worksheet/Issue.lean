/-
Issues: what is wrong with a value that was handed in, and where.

A check reports every issue it meets, not the first one.  An issue found inside a part of a value
is an issue of the value, under the key of the part.
-/
import Worksheet.Value.Basic

namespace Worksheet

/-- What is wrong: a code for programs to branch on and a message for people. -/
structure Problem where
  code : String
  message : String
  deriving DecidableEq

structure Issue where
  path : List String
  problem : Problem
  deriving DecidableEq

namespace Issue

/-- The key of an item of a list, counted from zero. -/
def positionKey (n : Nat) : String := String.ofList (Decimal.digitsOf n)

/-- The same issue, seen from a value that has the part under the key. -/
def under (key : String) (issue : Issue) : Issue := { issue with path := key :: issue.path }

def pathText (issue : Issue) : String := String.intercalate "." issue.path

/-- The issue on one line.  One without a path is only its message. -/
def line (issue : Issue) : String :=
  if issue.path = [] then issue.problem.message
  else issue.pathText ++ ": " ++ issue.problem.message

end Issue
end Worksheet
