/-
Levels of a log, from the most talkative to the silent one.

A level is also a number, and a logger may be set to any number: it then writes the entries
at that number or above.  Reading a level from a word ignores case and takes every unknown
word for `info`, except two words that the table of levels keeps for itself: they are found
there but are no level.
-/
import Worksheet.Binary64.Basic
import Worksheet.Text.Case

namespace Worksheet

inductive Level where
  | trace
  | debug
  | info
  | warn
  | error
  | fatal
  | silent
  deriving DecidableEq

namespace Level

def all : List Level := [trace, debug, info, warn, error, fatal, silent]

def word : Level → String
  | trace => "trace"
  | debug => "debug"
  | info => "info"
  | warn => "warn"
  | error => "error"
  | fatal => "fatal"
  | silent => "silent"

def name : Level → String
  | trace => "TRACE"
  | debug => "DEBUG"
  | info => "INFO"
  | warn => "WARN"
  | error => "ERROR"
  | fatal => "FATAL"
  | silent => "SILENT"

def number : Level → Nat
  | trace => 0
  | debug => 1
  | info => 2
  | warn => 3
  | error => 4
  | fatal => 5
  | silent => 6

def value (level : Level) : Binary64 := .ofNat level.number

/-- The name of the level with a number; every number that is no level is named `INFO`. -/
def nameOf (x : Binary64) : String :=
  match x.toNat? with
  | some n => ((all.find? fun level => level.number = n).getD info).name
  | none => info.name

/-- What a word finds in the table of levels. -/
inductive Found where
  | level (level : Level)
  /-- Something that the table keeps for itself, and its kind. -/
  | reserved (kind : String)
  deriving DecidableEq

/-- The words that the table of levels keeps for itself. -/
def reserved : List (String × String) := [("constructor", "function"), ("__proto__", "object")]

/-- What a word finds in the table of levels, in any case. -/
def ofWord (text : String) : Found :=
  let lowered := String.ofList (Text.lower text.toList)
  match all.find? fun level => level.word = lowered with
  | some level => .level level
  | none =>
    match reserved.lookup lowered with
    | some kind => .reserved kind
    | none => .level info

end Level
end Worksheet
