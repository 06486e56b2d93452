/-
Loggers.

A logger writes entries at its level and above.  It has no state of its own: what it writes
depends on its configuration, its context, the time it was made and the host it runs on, so
two runs can be compared line by line.  A child has the configuration of its parent and
adds to its context.
-/
import Worksheet.Log.Layout
import Worksheet.Log.Redaction

namespace Worksheet

/-- What a log shows differently on different machines: the time of day of a timestamp, which
goes by the zone and the language of the machine, and the stack that a fault carries. -/
class Runtime where
  timeText : Value → String
  /-- The time of day starts no escape sequence. -/
  escape_not_mem : ∀ timestamp, '\x1b' ∉ (timeText timestamp).toList
  stackOf : Fault → Option String

/-- Universal time in English, and of a stack no more than its first line. -/
instance Runtime.standard : Runtime where
  timeText := Layout.timeText
  escape_not_mem := Layout.escape_not_mem_timeText
  stackOf fault := some (fault.name ++ ": " ++ fault.message)

/-- The machine and the process that a logger runs in, at one moment. -/
structure Host where
  name : String
  process : Nat
  /-- Milliseconds since the start of 1970. -/
  clock : Binary64
  environment : Environment
  /-- Bytes of memory in use and set aside. -/
  memoryUsed : Binary64
  memoryTotal : Binary64
  [runtime : Runtime]

namespace Host

/-- Colours are off if the environment says so with any text but the empty one. -/
def colours (host : Host) : Bool :=
  match host.environment.get? "NO_COLOR" with
  | some s => s = ""
  | none => true

def advance (host : Host) (ms : Binary64) : Host := { host with clock := host.clock + ms }

end Host

/-! ## Lines -/

inductive Stream where
  | log
  | warn
  | error
  deriving DecidableEq

structure Line where
  stream : Stream
  text : String
  deriving DecidableEq

/-- Errors go to one stream, warnings to another and the rest to a third. -/
def Level.stream : Level → Stream
  | .error => .error
  | .fatal => .error
  | .warn => .warn
  | _ => .log

/-! ## Configuration -/

structure Config where
  level : Binary64
  format : Format
  showPerformance : Bool
  showContext : Bool
  sanitize : Bool
  service : String
  version : Option String

structure Overrides where
  level : Option Binary64
  format : Option Format
  showPerformance : Option Bool
  showContext : Option Bool
  sanitize : Option Bool
  service : Option String
  version : Option String

namespace Overrides

def none : Overrides := ⟨.none, .none, .none, .none, .none, .none, .none⟩

/-- What settings say about a logger.  In production it writes JSON unless told otherwise. -/
def ofSettings (settings : Settings) : Overrides :=
  { none with
    level := some settings.level.value
    format := some (settings.format.getD
      (if settings.stage = .production then .json else .pretty))
    sanitize := some settings.sanitize }

end Overrides

namespace Config

def standard (host : Host) : Config where
  level := Level.info.value
  format := .pretty
  showPerformance := false
  showContext := true
  sanitize := true
  service := "gridcalc"
  version := host.environment.get? "npm_package_version"

def override (config : Config) (overrides : Overrides) : Config where
  level := overrides.level.getD config.level
  format := overrides.format.getD config.format
  showPerformance := overrides.showPerformance.getD config.showPerformance
  showContext := overrides.showContext.getD config.showContext
  sanitize := overrides.sanitize.getD config.sanitize
  service := overrides.service.getD config.service
  version := overrides.version.or config.version

end Config

/-- What an environment says about a logger.  One that is not valid says nothing, and a
warning tells why. -/
def Overrides.ofEnvironment (env : Environment) (checker : Checker := .standard) :
    Overrides × List Line :=
  match Settings.ofEnvironment env checker with
  | .ok settings => (.ofSettings settings, [])
  | .error fault =>
    (.none,
      [⟨.warn, "[Logger] Falling back to default configuration: " ++ fault.message⟩])

/-! ## Entries -/

/-- An error as an entry shows it.  Its code is shown only if it is a text. -/
structure Failure where
  name : String
  message : String
  code : Value
  stack : Option String

namespace Failure

def toValue (failure : Failure) : Value :=
  .record <|
    [("name", .string failure.name), ("message", .string failure.message)] ++
      (match failure.code.string? with
        | some code => [("code", .string code)]
        | none => []) ++
      (match failure.stack with
        | some stack => [("stack", .string stack)]
        | none => [])

end Failure

/-- Time since a logger was made and memory in megabytes. -/
structure Performance where
  uptime : Binary64
  used : Binary64
  total : Binary64

namespace Performance

def megabytes (bytes : Binary64) : Binary64 := (bytes / 1024 / 1024).roundHalfUp

def toValue (performance : Performance) : Value :=
  .record
    [("uptime", .number performance.uptime),
      ("memory",
        .record [("used", .number performance.used), ("total", .number performance.total)])]

end Performance

structure Entry where
  timestamp : String
  level : String
  message : String
  service : String
  hostname : String
  process : Nat
  version : Option String
  context : Option Value
  metadata : Option Value
  failure : Option Failure
  performance : Option Performance

namespace Entry

def optional {α : Type} (key : String) (toValue : α → Value) : Option α → Record
  | some part => [(key, toValue part)]
  | none => []

/-- An entry as a record.  Parts that are absent have no field. -/
def toValue (entry : Entry) : Value :=
  .record <|
    [("timestamp", .string entry.timestamp), ("level", .string entry.level),
      ("message", .string entry.message), ("service", .string entry.service),
      ("hostname", .string entry.hostname), ("pid", .number (.ofNat entry.process))] ++
    optional "version" Value.string entry.version ++
    optional "context" id entry.context ++
    optional "metadata" id entry.metadata ++
    optional "error" Failure.toValue entry.failure ++
    optional "performance" Performance.toValue entry.performance

end Entry

/-! ## Loggers -/

structure Logger where
  config : Config
  context : Record
  started : Binary64

namespace Logger

def ofOverrides (host : Host) (overrides : Overrides) (context : Record) : Logger :=
  ⟨(Config.standard host).override overrides, context, host.clock⟩

/-- A logger that follows the environment, except for what is set. -/
def ofEnvironment (host : Host) (overrides : Overrides) : Logger × List Line :=
  let (found, lines) := Overrides.ofEnvironment host.environment
  (⟨((Config.standard host).override found).override overrides, [], host.clock⟩, lines)

/-- A logger that writes nothing. -/
def mute (host : Host) : Logger :=
  .ofOverrides host { Overrides.none with level := some Level.silent.value } []

def child (logger : Logger) (host : Host) (context : Record) : Logger :=
  ⟨logger.config, logger.context.merge context, host.clock⟩

def writes (logger : Logger) (level : Binary64) : Bool :=
  logger.config.level.le level && !logger.config.level.eq Level.silent.value

def writesWord (logger : Logger) (word : String) : Bool :=
  match Level.ofWord word with
  | .level level => logger.writes level.value
  | .reserved _ => false

def levelName (logger : Logger) : String := Level.nameOf logger.config.level

/-- What an entry shows of a record; a value that is no record is seen as one. -/
def shown (logger : Logger) (value : Value) : Value :=
  if logger.config.sanitize then .record (Redaction.redactFields value.fields) else value

def shownContext (logger : Logger) : Option Value :=
  if logger.config.showContext ∧ ¬ logger.context.isEmpty then
    some (logger.shown (.record logger.context))
  else none

def shownMetadata (logger : Logger) (metadata : Value) : Option Value :=
  if metadata.isPresent then some (logger.shown metadata) else none

def performance (logger : Logger) (host : Host) : Option Performance :=
  if logger.config.showPerformance then
    some ⟨host.clock - logger.started, Performance.megabytes host.memoryUsed,
      Performance.megabytes host.memoryTotal⟩
  else none

def entry (logger : Logger) (host : Host) (level : Level) (message : String)
    (metadata : Value) (failure : Option Failure) : Entry where
  timestamp := Instant.textOf host.clock
  level := level.name
  message := message
  service := logger.config.service
  hostname := host.name
  process := host.process
  version := logger.config.version
  context := logger.shownContext
  metadata := logger.shownMetadata metadata
  failure := failure
  performance := logger.performance host

def textOf (logger : Logger) (host : Host) (entry : Value) : String :=
  Layout.render host.runtime.timeText logger.config.format host.colours entry

def write (logger : Logger) (host : Host) (level : Level) (message : String)
    (metadata : Value) (failure : Option Failure) : List Line :=
  if logger.writes level.value then
    [⟨level.stream,
      logger.textOf host (logger.entry host level message metadata failure).toValue⟩]
  else []

/-- What a report is about: an error, or facts of any kind. -/
inductive Subject where
  | failure (failure : Failure)
  | facts (facts : Value)

/-- Reports an error, or facts that are merged with the metadata. -/
def report (logger : Logger) (host : Host) (level : Level) (message : String)
    (subject : Subject) (metadata : Value) : List Line :=
  match subject with
  | .failure failure => logger.write host level message metadata (some failure)
  | .facts facts =>
    let merged := (Record.merge [] facts.fields).merge metadata.fields
    logger.write host level message (.record merged) none

end Logger

/-! ## Timers -/

/-- A clock that was started for a purpose. -/
structure Timer where
  logger : Logger
  label : String
  started : Binary64

namespace Timer

def start (logger : Logger) (host : Host) (label : String) : Timer :=
  ⟨logger, label, host.clock⟩

/-- The time since the start, and a line about it.  A timer may be stopped again. -/
def stop (timer : Timer) (host : Host) : Binary64 × List Line :=
  let duration := host.clock - timer.started
  (duration,
    timer.logger.write host .debug ("Timer [" ++ timer.label ++ "]")
      (.record [("duration", .number duration), ("label", .string timer.label)]) none)

end Timer
end Worksheet
