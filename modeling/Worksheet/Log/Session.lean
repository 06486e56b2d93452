/-
A session with loggers, step by step.

Loggers and timers are numbered in the order in which they are made.  A step answers, writes
lines and leaves a session for the next step; a step that names a logger or a timer which
does not exist answers nothing and changes nothing.
-/
import Worksheet.Log.Logger

namespace Worksheet
namespace Logger

/-- How the session makes a logger. -/
inductive Recipe where
  | plain (overrides : Overrides) (context : Record)
  | environment (overrides : Overrides)

def Recipe.make (recipe : Recipe) (host : Host) : Logger × List Line :=
  match recipe with
  | .plain overrides context => (.ofOverrides host overrides context, [])
  | .environment overrides => Logger.ofEnvironment host overrides

structure Session where
  host : Host
  recipe : Recipe
  loggers : List Logger
  timers : List Timer

/-- A level to ask about. -/
inductive Query where
  | number (x : Binary64)
  | word (s : String)

inductive Step where
  | create
  | write (logger : Nat) (level : Level) (message : String) (metadata : Value)
  | report (logger : Nat) (level : Level) (message : String) (subject : Subject)
      (metadata : Value)
  | child (logger : Nat) (context : Record)
  | startTimer (logger : Nat) (label : String)
  | stopTimer (timer : Nat)
  | levelName (logger : Nat)
  | writes (logger : Nat) (query : Query)
  | advance (ms : Binary64)
  | setVariable (name : String) (value : Option String)

inductive Answer where
  | done
  | number (x : Binary64)
  | text (s : String)
  | flag (b : Bool)

namespace Session

def start (host : Host) (recipe : Recipe) : Session := ⟨host, recipe, [], []⟩

/-- A logger put behind the others, and its number. -/
def add (session : Session) (logger : Logger) : Answer × Session :=
  (.number (.ofNat session.loggers.length),
    { session with loggers := session.loggers ++ [logger] })

/-- The same step on the logger with a number. -/
def on (session : Session) (number : Nat)
    (act : Logger → Answer × List Line × Session) : Answer × List Line × Session :=
  match session.loggers[number]? with
  | some logger => act logger
  | none => (.done, [], session)

/-- The answer, the lines and what comes after a step. -/
def step (session : Session) : Step → Answer × List Line × Session
  | .create =>
    let (logger, lines) := session.recipe.make session.host
    let (answer, after) := session.add logger
    (answer, lines, after)
  | .write number level message metadata =>
    session.on number fun logger =>
      (.done, logger.write session.host level message metadata none, session)
  | .report number level message subject metadata =>
    session.on number fun logger =>
      (.done, logger.report session.host level message subject metadata, session)
  | .child number context =>
    session.on number fun logger =>
      let (answer, after) := session.add (logger.child session.host context)
      (answer, [], after)
  | .startTimer number label =>
    session.on number fun logger =>
      (.number (.ofNat session.timers.length), [],
        { session with timers := session.timers ++ [.start logger session.host label] })
  | .stopTimer number =>
    match session.timers[number]? with
    | some timer =>
      let (duration, lines) := timer.stop session.host
      (.number duration, lines, session)
    | none => (.done, [], session)
  | .levelName number => session.on number fun logger => (.text logger.levelName, [], session)
  | .writes number (.number x) =>
    session.on number fun logger => (.flag (logger.writes x), [], session)
  | .writes number (.word s) =>
    session.on number fun logger => (.flag (logger.writesWord s), [], session)
  | .advance ms => (.done, [], { session with host := session.host.advance ms })
  | .setVariable name value =>
    let environment :=
      match value with
      | some value => session.host.environment.set name value
      | none => session.host.environment.unset name
    (.done, [], { session with host := { session.host with environment := environment } })

def run (session : Session) : List Step → List (Answer × List Line)
  | [] => []
  | step :: steps =>
    let (answer, lines, after) := session.step step
    (answer, lines) :: run after steps

end Session
end Logger
end Worksheet
