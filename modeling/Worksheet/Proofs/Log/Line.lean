/-
Lines of a log that are read by a program.

An entry in JSON is one line, and reading the line gives the entry.  Both are known of every value
that is loggable (`Json.le_toNat_of_mem_render`, `Json.reread_normal`), so what is left is that an
entry is one: taking out secrets and merging keep values loggable, and the parts of an entry have
keys of their own in a fixed order, whichever of them are there.
-/
import Worksheet.Proofs.Binary64.Natural
import Worksheet.Proofs.Json.Line
import Worksheet.Proofs.Log.Redaction

namespace Worksheet

/-! ## Values that are built from loggable ones -/

namespace Redaction

theorem loggable_of_mem_redactFields {fields : Record}
    (h : ∀ field ∈ fields, (redact field.2).Loggable) :
    ∀ field ∈ redactFields fields, field.2.Loggable := by
  induction fields with
  | nil => exact fun _ hfield => absurd hfield List.not_mem_nil
  | cons first rest ih =>
    obtain ⟨hfirst, hrest⟩ := List.forall_mem_cons.mp h
    obtain ⟨name, held⟩ := first
    rw [redactFields]
    split
    · exact ih hrest
    · split
      · exact List.forall_mem_cons.mpr ⟨.string "[REDACTED]", ih hrest⟩
      · exact List.forall_mem_cons.mpr ⟨hfirst, ih hrest⟩

theorem loggable_redact {value : Value} (h : value.Loggable) : (redact value).Loggable := by
  induction h with
  | absent => exact .absent
  | null => exact .null
  | boolean b => exact .boolean b
  | number hsafe hx => exact .number hsafe hx
  | string s => exact .string s
  | @list items _ ih =>
    rw [redact, redactItems_eq_map]
    refine .list fun item hitem => ?_
    obtain ⟨source, hsource, rfl⟩ := List.mem_map.mp hitem
    exact ih source hsource
  | @record fields proper _ ih =>
    refine .record (proper.of_sublist ?_) (loggable_of_mem_redactFields ih)
    rw [keys_redactFields]
    exact List.filter_sublist

end Redaction

namespace Record

/-- A record that may be logged. -/
def Loggable (fields : Record) : Prop := (Value.record fields).Loggable

variable {older newer fields : Record}

theorem loggable_nil : Loggable [] := .record .nil fun _ hfield => absurd hfield List.not_mem_nil

theorem Loggable.proper (h : Loggable fields) : Proper fields := by
  cases h with
  | record proper _ => exact proper

theorem Loggable.forall_mem (h : Loggable fields) : ∀ field ∈ fields, field.2.Loggable := by
  cases h with
  | record _ hvalues => exact hvalues

theorem Loggable.merge (h : Loggable older) (hnewer : Loggable newer) :
    Loggable (older.merge newer) :=
  .record (h.proper.merge newer) fun field hfield =>
    (mem_of_mem_merge hfield).elim (h.forall_mem field) (hnewer.forall_mem field)

theorem loggable_of_keys (names : List String)
    (hnames : names.Pairwise fun key later => key ≠ later ∧ precedes later key = false)
    (hkeys : (keys fields).Sublist names) (h : ∀ field ∈ fields, field.2.Loggable) :
    Loggable fields := .record (List.Pairwise.sublist hkeys hnames) h

end Record

/-! ## Entries -/

namespace Entry

variable {α : Type}

theorem keys_optional (key : String) (toValue : α → Value) (part : Option α) :
    (Record.keys (optional key toValue part)).Sublist [key] := by
  cases part with
  | none => exact List.nil_sublist [key]
  | some part => exact .refl [key]

theorem forall_mem_optional {toValue : α → Value} {part : Option α} (key : String)
    (h : ∀ value ∈ part, (toValue value).Loggable) :
    ∀ field ∈ optional key toValue part, field.2.Loggable := by
  cases part with
  | none => exact fun _ hfield => absurd hfield List.not_mem_nil
  | some part => exact List.forall_mem_singleton.mpr (h part rfl)

end Entry

theorem Failure.loggable_toValue (failure : Failure) : failure.toValue.Loggable := by
  have hfields : failure.toValue = .record (
      [("name", .string failure.name), ("message", .string failure.message)] ++
        Entry.optional "code" Value.string failure.code.string? ++
        Entry.optional "stack" Value.string failure.stack) := by
    unfold toValue Entry.optional
    cases failure.code.string? <;> cases failure.stack <;> rfl
  have hfirst : ∀ field ∈ [("name", Value.string failure.name),
      ("message", .string failure.message)], field.2.Loggable := by
    simp only [List.forall_mem_cons]
    exact ⟨.string _, .string _, fun _ hfield => absurd hfield List.not_mem_nil⟩
  rw [hfields]
  refine Record.loggable_of_keys ["name", "message", "code", "stack"] (by decide) ?_ ?_
  · rw [Record.keys_append, Record.keys_append]
    exact ((List.Sublist.refl ["name", "message"]).append (Entry.keys_optional "code" _ _)).append
      (Entry.keys_optional "stack" _ _)
  · exact List.forall_mem_append.mpr ⟨List.forall_mem_append.mpr
      ⟨hfirst, Entry.forall_mem_optional "code" fun code _ => .string code⟩,
      Entry.forall_mem_optional "stack" fun stack _ => .string stack⟩

theorem Value.loggable_ofNat {n : Nat} (hn : n ≤ Binary64.maxSafe) :
    (Value.number (.ofNat n)).Loggable := by
  have hsafe : (Binary64.ofInt n).isSafe = true := (Binary64.isSafe_ofInt_iff n).mpr hn
  have hrepresents := Binary64.represents_ofInt hsafe
  rw [Binary64.ofNat_eq_ofInt]
  exact .number hsafe hrepresents.ne_negative_zero

/-- An entry without figures of performance is loggable if its context and its metadata are. -/
theorem Entry.loggable_toValue {entry : Entry} (hprocess : entry.process ≤ Binary64.maxSafe)
    (hcontext : ∀ context ∈ entry.context, context.Loggable)
    (hmetadata : ∀ metadata ∈ entry.metadata, metadata.Loggable)
    (hperformance : entry.performance = none) : entry.toValue.Loggable := by
  have hfirst : ∀ field ∈ [("timestamp", Value.string entry.timestamp),
      ("level", .string entry.level), ("message", .string entry.message),
      ("service", .string entry.service), ("hostname", .string entry.hostname),
      ("pid", .number (.ofNat entry.process))], field.2.Loggable := by
    simp only [List.forall_mem_cons]
    exact ⟨.string _, .string _, .string _, .string _, .string _, Value.loggable_ofNat hprocess,
      fun _ hfield => absurd hfield List.not_mem_nil⟩
  rw [toValue, hperformance]
  refine Record.loggable_of_keys ["timestamp", "level", "message", "service", "hostname", "pid",
    "version", "context", "metadata", "error", "performance"] (by decide) ?_ ?_
  · simp only [Record.keys_append]
    exact (((((List.Sublist.refl ["timestamp", "level", "message", "service", "hostname",
      "pid"]).append (keys_optional "version" _ _)).append (keys_optional "context" _ _)).append
      (keys_optional "metadata" _ _)).append (keys_optional "error" _ _)).append
      (keys_optional "performance" _ _)
  · simp only [List.forall_mem_append]
    exact ⟨⟨⟨⟨⟨hfirst, forall_mem_optional "version" fun version _ => .string version⟩,
      forall_mem_optional "context" hcontext⟩, forall_mem_optional "metadata" hmetadata⟩,
      forall_mem_optional "error" fun failure _ => failure.loggable_toValue⟩,
      forall_mem_optional "performance" fun figures hfigures =>
        absurd hfigures (Option.not_mem_none figures)⟩

/-! ## Lines -/

namespace Logger

/-- Nothing, or a record that may be logged. -/
inductive Facts : Value → Prop
  | none : Facts .absent
  | record {fields : Record} (h : fields.Loggable) : Facts (.record fields)

/-- All that a call hands over may be logged. -/
inductive Call.Loggable : Call → Prop
  | write (level : Level) (message : String) {metadata : Value} (h : Facts metadata) :
      Call.Loggable (.write level message metadata)
  | failure (level : Level) (message : String) (failure : Failure) {metadata : Value}
      (h : Facts metadata) : Call.Loggable (.report level message (.failure failure) metadata)
  | facts (level : Level) (message : String) {facts metadata : Value} (hfacts : Facts facts)
      (h : Facts metadata) : Call.Loggable (.report level message (.facts facts) metadata)

theorem Facts.loggable_fields {value : Value} (h : Facts value) : Record.Loggable value.fields := by
  cases h with
  | none => exact Record.loggable_nil
  | record h => exact h

/-- The metadata of the entry: nothing, or a record that may be logged. -/
theorem Call.Loggable.metadata {call : Call} (h : call.Loggable) : Facts call.metadata := by
  cases h with
  | write level message h => exact h
  | failure level message failure h => exact h
  | facts level message hfacts h =>
    exact .record ((Record.loggable_nil.merge hfacts.loggable_fields).merge h.loggable_fields)

variable (logger : Logger) (host : Host) (call : Call)

theorem loggable_shown {fields : Record} (h : fields.Loggable) :
    (logger.shown (.record fields)).Loggable := by
  unfold shown
  split
  · exact Redaction.loggable_redact h
  · exact h

theorem loggable_entryOf (hperformance : logger.config.showPerformance = false)
    (hprocess : host.process ≤ Binary64.maxSafe) (hcontext : Record.Loggable logger.context)
    (hcall : call.Loggable) : (logger.entryOf host call).toValue.Loggable := by
  apply Entry.loggable_toValue
  · exact hprocess
  · intro context hmem
    have hshown : logger.shownContext = some context := hmem
    unfold shownContext at hshown
    split at hshown
    · cases hshown
      exact logger.loggable_shown hcontext
    · cases hshown
  · intro metadata hmem
    have hshown : logger.shownMetadata call.metadata = some metadata := hmem
    have hfacts := hcall.metadata
    generalize call.metadata = given at hfacts hshown
    cases hfacts with
    | none => cases hshown
    | record h =>
      cases hshown
      exact logger.loggable_shown h
  · show logger.performance host = none
    rw [performance, hperformance]
    rfl

/-- A call that is enabled writes one line without control characters, and reading the line gives
the entry of the call, but for what is absent from it. -/
theorem perform_reads_back (hformat : logger.config.format = .json)
    (hperformance : logger.config.showPerformance = false)
    (hwrites : logger.writes call.level.value = true) (hprocess : host.process ≤ Binary64.maxSafe)
    (hcontext : Record.Loggable logger.context) (hcall : call.Loggable) :
    ∃ text, logger.perform host call = [⟨call.level.stream, text⟩] ∧
      (∀ c ∈ text.toList, 32 ≤ c.toNat) ∧
      Json.parse text = some (Json.kept (logger.entryOf host call).toValue) := by
  have htext : ∀ entry, logger.textOf host entry = Json.render .compact entry := by
    intro entry
    rw [textOf, hformat, Layout.render]
  have hloggable := logger.loggable_entryOf host call hperformance hprocess hcontext hcall
  refine ⟨_, (logger.perform_eq host call).trans (if_pos hwrites), ?_, ?_⟩
  · rw [htext]
    exact fun c hc => Json.le_toNat_of_mem_render hc
  · rw [htext]
    exact Json.parse_render_of_loggable .compact hloggable

/-- A message that looks like the end of a line and an entry of its own, and metadata with a secret
and with something that is absent. -/
theorem perform_reads_back_forged :
    let host : Host := ⟨"host", 42, 0, [], 0, 0⟩
    let logger : Logger := ⟨⟨Level.info.value, .json, false, true, true, "sheets", none⟩,
      [("7", .list [.absent, .record []]), ("user", .absent)], 0⟩
    let call : Call := .report .error "broken\n[\"INFO\"]" (.failure ⟨"Error", "\\", .null, none⟩)
      (.record [("rows", .number (.ofNat 3)), ("token", .list [])])
    logger.writes call.level.value = true ∧ host.process ≤ Binary64.maxSafe ∧
      Record.Loggable logger.context ∧ call.Loggable ∧
      ∃ text, logger.perform host call = [⟨.error, text⟩] ∧ (∀ c ∈ text.toList, 32 ≤ c.toNat) ∧
        Json.parse text = some (.record [("timestamp", .string (Instant.textOf 0)),
          ("level", .string "ERROR"), ("message", .string "broken\n[\"INFO\"]"),
          ("service", .string "sheets"), ("hostname", .string "host"), ("pid", .number (.ofNat 42)),
          ("context", .record [("7", .list [.null, .record []])]),
          ("metadata", .record [("rows", .number (.ofNat 3)), ("token", .string "[REDACTED]")]),
          ("error", .record [("name", .string "Error"), ("message", .string "\\")])]) := by
  intro host logger call
  have hwrites : logger.writes call.level.value = true := by decide +kernel
  have hprocess : host.process ≤ Binary64.maxSafe := by decide
  have hcontext : Record.Loggable logger.context := by
    refine .record (by decide) ?_
    simp only [logger, List.forall_mem_cons, List.not_mem_nil, IsEmpty.forall_iff, implies_true]
    exact ⟨.list (List.forall_mem_cons.mpr
      ⟨.absent, List.forall_mem_singleton.mpr Record.loggable_nil⟩), .absent, trivial⟩
  have hrows : (Value.number (.ofNat 3)).Loggable := Value.loggable_ofNat (by decide)
  have hcall : call.Loggable := by
    refine .failure .error _ _ (.record (.record (by decide) ?_))
    simp only [List.forall_mem_cons, List.not_mem_nil, IsEmpty.forall_iff, implies_true]
    exact ⟨hrows, .list fun _ hitem => absurd hitem List.not_mem_nil, trivial⟩
  have hentry : logger.entryOf host call = ⟨Instant.textOf 0, "ERROR", "broken\n[\"INFO\"]",
      "sheets", "host", 42, none,
      some (.record (Redaction.redactFields [("7", .list [.absent, .record []]),
        ("user", .absent)])),
      some (.record (Redaction.redactFields [("rows", .number (.ofNat 3)), ("token", .list [])])),
      some ⟨"Error", "\\", .null, none⟩, none⟩ := rfl
  have hkept : Json.kept (logger.entryOf host call).toValue =
      .record [("timestamp", .string (Instant.textOf 0)), ("level", .string "ERROR"),
        ("message", .string "broken\n[\"INFO\"]"), ("service", .string "sheets"),
        ("hostname", .string "host"), ("pid", .number (.ofNat 42)),
        ("context", .record [("7", .list [.null, .record []])]),
        ("metadata", .record [("rows", .number (.ofNat 3)), ("token", .string "[REDACTED]")]),
        ("error", .record [("name", .string "Error"), ("message", .string "\\")])] := by
    rw [hentry]
    -- The text of the time is not to be computed.
    generalize Instant.textOf 0 = time
    rfl
  obtain ⟨text, hperform, hclear, hparse⟩ :=
    perform_reads_back logger host call rfl rfl hwrites hprocess hcontext hcall
  exact ⟨hwrites, hprocess, hcontext, hcall, text, hperform, hclear,
    hparse.trans (congrArg some hkept)⟩

end Logger
end Worksheet
