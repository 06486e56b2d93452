/-
The lines of a logger as entries that pass its level.

A notice is an entry with its level, whether or not it is written.  What a logger writes is a
list of notices, filtered by the level of the logger and laid out one by one (`lines_nil`,
`lines_cons`), so that a trace can be stated by its notices.  They are stated as a reader of the
log finds them, by the fields of the record that is laid out.

Taking out secrets leaves alone what is held under a key that is not sensitive
(`get?_redactFields`), so that facts under such keys are in the record as they were given,
and a child has the context it was made with whatever its parent knew under the same key.

A call is what a caller asks for; whichever way it is made, it writes its entry in one line or
nothing (`perform_eq`).
-/
import Worksheet.Log.Logger
import Worksheet.Proofs.Record

namespace Worksheet

namespace Redaction

/-- A key whose value is taken over as it is, but for secrets inside of it. -/
structure Open (key : String) : Prop where
  writable : key ≠ unwritable
  plain : isSensitive key = false

variable {key : String} {fields : Record}

theorem get?_redactFields (h : Open key) :
    Record.get? (redactFields fields) key = (Record.get? fields key).map redact := by
  induction fields with
  | nil => rfl
  | cons field rest ih =>
    obtain ⟨name, value⟩ := field
    rw [redactFields, Record.get?_cons]
    by_cases hname : key = name
    · subst hname
      rw [if_neg h.writable, h.plain, if_neg Bool.false_ne_true, Record.get?_cons, if_pos rfl,
        if_pos rfl, Option.map_some]
    · rw [if_neg hname, ← ih]
      split
      · rfl
      · split <;> rw [Record.get?_cons, if_neg hname]

/-- Fields that are all under open keys and hold nothing that would be taken out. -/
def Kept (fields : Record) : Prop := ∀ field ∈ fields, Open field.1 ∧ redact field.2 = field.2

theorem kept_nil : Kept [] := fun _ hmem => absurd hmem List.not_mem_nil

theorem Kept.cons {value : Value} (hkey : Open key) (hvalue : redact value = value)
    (h : Kept fields) : Kept ((key, value) :: fields) :=
  List.forall_mem_cons.mpr ⟨⟨hkey, hvalue⟩, h⟩

theorem Kept.append {more : Record} (h : Kept fields) (hmore : Kept more) :
    Kept (fields ++ more) :=
  List.forall_mem_append.mpr ⟨h, hmore⟩

theorem Kept.redactFields_eq (h : Kept fields) : redactFields fields = fields := by
  induction fields with
  | nil => rfl
  | cons field rest ih =>
    obtain ⟨name, value⟩ := field
    obtain ⟨⟨hopen, hvalue⟩, hrest⟩ := List.forall_mem_cons.mp h
    rw [redactFields, if_neg hopen.writable, hopen.plain, if_neg Bool.false_ne_true, hvalue,
      ih hrest]

end Redaction

/-! ## Entries -/

namespace Entry

variable (entry : Entry)

theorem get?_optional {α : Type} (key other : String) (toValue : α → Value) (part : Option α) :
    Record.get? (optional key toValue part) other =
      if other = key then part.map toValue else none := by
  cases part with
  | none => rw [optional, Record.get?_nil, Option.map_none, ite_self]
  | some part => rw [optional, Record.get?_cons, Record.get?_nil, Option.map_some]

theorem field_level : entry.toValue.field "level" = .string entry.level := by
  simp [toValue, Value.field, Record.get?_cons]

theorem field_message : entry.toValue.field "message" = .string entry.message := by
  simp [toValue, Value.field, Record.get?_cons]

theorem field_context : entry.toValue.field "context" = entry.context.getD .absent := by
  simp [toValue, Value.field, Record.get?_append, get?_optional, Record.get?_cons]

theorem field_metadata : entry.toValue.field "metadata" = entry.metadata.getD .absent := by
  simp [toValue, Value.field, Record.get?_append, get?_optional, Record.get?_cons]

theorem field_error :
    entry.toValue.field "error" = (entry.failure.map Failure.toValue).getD .absent := by
  simp [toValue, Value.field, Record.get?_append, get?_optional, Record.get?_cons]

end Entry

/-! ## Notices -/

/-- An entry with its level, before a logger decides whether to write it. -/
structure Notice where
  level : Level
  record : Value

/-- The notice is of that level, names it, and has that message. -/
structure Notice.Says (notice : Notice) (level : Level) (message : String) : Prop where
  level_eq : notice.level = level
  levelName_eq : notice.record.field "level" = .string level.name
  message_eq : notice.record.field "message" = .string message

namespace Logger

/-- The lines a logger writes for notices on a host: those that pass its level, in their order. -/
def lines (logger : Logger) (host : Host) (notices : List Notice) : List Line :=
  (notices.filter fun notice => logger.writes notice.level.value).map fun notice =>
    ⟨notice.level.stream, logger.textOf host notice.record⟩

def notice (logger : Logger) (host : Host) (level : Level) (message : String)
    (metadata : Value) (failure : Option Failure) : Notice :=
  ⟨level, (logger.entry host level message metadata failure).toValue⟩

variable (logger : Logger) (host : Host) (level : Level) (message : String) (metadata : Value)
  (failure : Option Failure)

theorem lines_nil : logger.lines host [] = [] := rfl

theorem lines_cons (rest : List Notice) :
    logger.lines host (logger.notice host level message metadata failure :: rest) =
      logger.write host level message metadata failure ++ logger.lines host rest := by
  rw [lines, List.filter_cons, write]
  show List.map _ (if logger.writes level.value then _ else _) = _
  split <;> rfl

/-- A child writes at the level and in the layout of its parent. -/
theorem lines_child (context : Record) (reader : Host) (notices : List Notice) :
    (logger.child host context).lines reader notices = logger.lines reader notices := rfl

/-- The time is in a notice, and not in how it is laid out. -/
theorem lines_clock (clock : Binary64) (notices : List Notice) :
    logger.lines { host with clock := clock } notices = logger.lines host notices := rfl

theorem says_notice :
    (logger.notice host level message metadata failure).Says level message where
  level_eq := rfl
  levelName_eq := Entry.field_level _
  message_eq := Entry.field_message _

/-- Facts that hold no secret are in the record as they were given. -/
theorem field_metadata_notice {facts : Record} (h : Redaction.Kept facts) :
    (logger.notice host level message (.record facts) failure).record.field "metadata" =
      .record facts := by
  refine (Entry.field_metadata _).trans ?_
  show (logger.shownMetadata (.record facts)).getD .absent = .record facts
  rw [shownMetadata, Value.isPresent, if_pos rfl, Option.getD_some, shown]
  split
  · rw [Value.fields, h.redactFields_eq]
  · rfl

theorem field_metadata_notice_absent :
    (logger.notice host level message .absent failure).record.field "metadata" = .absent :=
  Entry.field_metadata _

theorem field_error_notice :
    (logger.notice host level message metadata failure).record.field "error" =
      (failure.map Failure.toValue).getD .absent :=
  Entry.field_error _

/-- A child shows what it was made with, whatever its parent knows under the same key. -/
theorem field_context_notice_child {key text : String} (hkey : Redaction.Open key)
    (host' : Host) (hshow : logger.config.showContext = true) :
    (((logger.child host' [(key, .string text)]).notice host level message metadata
      failure).record.field "context").field key = .string text := by
  have hget : Record.get? (logger.context.set key (.string text)) key = some (.string text) :=
    Record.get?_set_self logger.context key (.string text)
  have hfilled : ¬ (logger.context.set key (.string text)).isEmpty := by
    intro hempty
    rw [List.isEmpty_iff.mp hempty] at hget
    cases hget
  have hshown : (logger.child host' [(key, .string text)]).shownContext =
      some (logger.shown (.record (logger.context.set key (.string text)))) :=
    if_pos ⟨hshow, hfilled⟩
  have hcontext := Entry.field_context
    ((logger.child host' [(key, .string text)]).entry host level message metadata failure)
  refine (congrArg (fun value => value.field key) hcontext).trans ?_
  show (Option.getD (logger.child host' [(key, .string text)]).shownContext
    .absent).field key = _
  rw [hshown, Option.getD_some, shown]
  split
  · rw [Value.fields, Value.field, Redaction.get?_redactFields hkey, hget]
    rfl
  · rw [Value.field, hget]
    rfl

end Logger

/-! ## Calls -/

namespace Logger

/-- What a caller asks a logger to write. -/
inductive Call where
  | write (level : Level) (message : String) (metadata : Value)
  | report (level : Level) (message : String) (subject : Subject) (metadata : Value)

namespace Call

def level : Call → Level
  | write level _ _ => level
  | report level _ _ _ => level

def message : Call → String
  | write _ message _ => message
  | report _ message _ _ => message

/-- The metadata of the entry.  Facts that are reported are merged with those of the call. -/
def metadata : Call → Value
  | write _ _ metadata => metadata
  | report _ _ (.failure _) metadata => metadata
  | report _ _ (.facts facts) metadata =>
    .record ((Record.merge [] facts.fields).merge metadata.fields)

def failure : Call → Option Failure
  | report _ _ (.failure failure) _ => some failure
  | _ => none

end Call

variable (logger : Logger) (host : Host)

/-- The entry of a call, whether or not it is written. -/
def entryOf (call : Call) : Entry :=
  logger.entry host call.level call.message call.metadata call.failure

def perform : Call → List Line
  | .write level message metadata => logger.write host level message metadata none
  | .report level message subject metadata => logger.report host level message subject metadata

/-- Every call writes its entry in one line, or nothing. -/
theorem perform_eq (call : Call) :
    logger.perform host call =
      if logger.writes call.level.value then
        [⟨call.level.stream, logger.textOf host (logger.entryOf host call).toValue⟩]
      else [] := by
  cases call with
  | write level message metadata => rfl
  | report level message subject metadata => cases subject <;> rfl

end Logger
end Worksheet
