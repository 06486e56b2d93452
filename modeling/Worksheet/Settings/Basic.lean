/-
Settings from the environment.

Four variables are read.  Each may be missing, and otherwise has to be one of its listed
words; every variable that is not is reported, in the order of the schema and not in that of
the environment.  Other variables play no part.
-/
import Worksheet.Check.Standard
import Worksheet.Fault
import Worksheet.Log.Level

namespace Worksheet

abbrev Environment := List (String × String)

namespace Environment

def get? (env : Environment) (name : String) : Option String := env.lookup name

def set (env : Environment) (name value : String) : Environment :=
  (name, value) :: env.filter fun entry => entry.1 ≠ name

def unset (env : Environment) (name : String) : Environment :=
  env.filter fun entry => entry.1 ≠ name

def toValue (env : Environment) : Value :=
  .record (env.map fun entry => (entry.1, .string entry.2))

end Environment

/-- What a program is being run for. -/
inductive Stage where
  | development
  | production
  | test
  deriving DecidableEq

def Stage.word : Stage → String
  | .development => "development"
  | .production => "production"
  | .test => "test"

/-- How an entry of a log is written: as JSON, or for people to read. -/
inductive Format where
  | json
  | pretty
  deriving DecidableEq

def Format.word : Format → String
  | .json => "json"
  | .pretty => "pretty"

structure Settings where
  stage : Stage
  level : Level
  format : Option Format
  sanitize : Bool
  deriving DecidableEq

namespace Settings

/-! ## Variables -/

/-- The variables that are read. -/
inductive Variable where
  | stage
  | level
  | format
  | sanitize
  deriving DecidableEq

namespace Variable

/-- The order in which they are reported. -/
def all : List Variable := [stage, level, format, sanitize]

def name : Variable → String
  | stage => "NODE_ENV"
  | level => "LOG_LEVEL"
  | format => "LOG_FORMAT"
  | sanitize => "LOG_SANITIZE"

/-- What the value of a variable means. -/
abbrev Meaning : Variable → Type
  | stage => Stage
  | level => Level
  | format => Option Format
  | sanitize => Bool

end Variable

def stages : Choices Stage :=
  [("development", .development), ("production", .production), ("test", .test)]

def levels : Choices Level := Level.all.map fun level => (level.word, level)

def formats : Choices Format := [("json", .json), ("pretty", .pretty)]

def switches : Choices String := [("true", "true"), ("false", "false")]

/-- A variable that is missing has a default, but for the format. -/
def Variable.check (checker : Checker) : (v : Variable) → Check v.Meaning
  | .stage => checker.withDefault (checker.choice stages) (.string "development")
  | .level => checker.withDefault (checker.choice levels) (.string "info")
  | .format => checker.optional (checker.choice formats)
  | .sanitize =>
    checker.transform (checker.withDefault (checker.choice switches) (.string "true"))
      fun word => word == "true"

/-- The schema of an environment. -/
def shape (checker : Checker) : Shape Variable Variable.Meaning where
  fields := Variable.all
  complete v := by cases v <;> decide
  nodup := by decide
  name := Variable.name
  name_injective v w := by cases v <;> cases w <;> decide
  plain v := by cases v <;> decide
  check := Variable.check checker

/-! ## Reading -/

def ofParts (parts : ∀ v : Variable, v.Meaning) : Settings :=
  ⟨parts .stage, parts .level, parts .format, parts .sanitize⟩

/-- The settings of a record, or everything that is wrong with it. -/
def ofValue (value : Value) (checker : Checker := .standard) : Verdict Settings :=
  (checker.record (shape checker) value).map ofParts

/-- The lines that report what is wrong with an environment; none if nothing is. -/
def complaints (env : Environment) (checker : Checker := .standard) : List String :=
  match ofValue env.toValue checker with
  | .ok _ => []
  | .error issues => issues.map fun issue => issue.pathText ++ ": " ++ issue.problem.message

def isValid (env : Environment) (checker : Checker := .standard) : Bool :=
  match ofValue env.toValue checker with
  | .ok _ => true
  | .error _ => false

/-- The complaint about an environment that is not valid. -/
structure Invalid where
  lines : List String
  deriving DecidableEq

def Invalid.message (fault : Invalid) : String :=
  "Environment validation failed:\n" ++ Fault.bulleted fault.lines

/-- The settings of an environment, or one report of all that is wrong. -/
def ofEnvironment (env : Environment) (checker : Checker := .standard) :
    Except Invalid Settings :=
  match ofValue env.toValue checker with
  | .ok settings => .ok settings
  | .error issues =>
    .error ⟨issues.map fun issue => issue.pathText ++ ": " ++ issue.problem.message⟩

end Settings
end Worksheet
