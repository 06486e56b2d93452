/-
What a session writes mirrors what it answers.

`Mirrors` says which notices belong to a step and its answer: three for a table, one for
the fault of a cell, and none for a step that evaluates nothing, even if it fails.  A
request for all cells that fails has begun, so that it has a notice before the one of its
fault, and none about time.

A step never changes the logger, the sheet or the host but for its clock (`step_sameLog`), so that
each step of a run writes as the first one would: `step_traces` is about one step and
`trace_mirrors_answers` about all of them.  Nothing is asked of the marks: the trace mirrors the
answers whatever they are.
-/
import Worksheet.Proofs.Log.Notice
import Worksheet.Proofs.Session

namespace Worksheet

/-! ## The notices of an evaluator -/

/-- A notice of facts at the lowest level but one. -/
structure Notice.Announces (notice : Notice) (message : String) (facts : Record) : Prop
    extends notice.Says .debug message where
  metadata_eq : notice.record.field "metadata" = .record facts
  error_eq : notice.record.field "error" = .absent

/-- A notice that an evaluation failed, with all that a fault is known by. -/
structure Notice.Blames (notice : Notice) (fault : Fault) : Prop
    extends notice.Says .error "Grid evaluation failed" where
  metadata_eq : notice.record.field "metadata" = .absent
  name_eq : (notice.record.field "error").field "name" = .string fault.name
  wording_eq : (notice.record.field "error").field "message" = .string fault.message
  code_eq : (notice.record.field "error").field "code" = .string fault.code

namespace Evaluator

/-- The dimensions of a sheet as facts. -/
def sizes (sheet : Sheet) : Record :=
  [("rowCount", .number (.ofNat sheet.rowCount)),
    ("columnCount", .number (.ofNat sheet.columnCount))]

/-- The notices that belong to a step and its answer. -/
inductive Mirrors (sheet : Sheet) : Step → Answer → List Notice → Prop
  | table (took : Binary64) {rows : Table} {duration : Binary64} {begun timed ended : Notice}
      (hbegun : begun.Announces "Evaluating grid" (sizes sheet))
      (htimed : timed.Announces "Timer [evaluateAll]"
        [("duration", .number duration), ("label", .string "evaluateAll")])
      (hended : ended.Announces "Grid evaluated"
        (sizes sheet ++ [("duration", .number duration)])) :
      Mirrors sheet (.evaluateAll took) (.table rows) [begun, timed, ended]
  | noTable (took : Binary64) {fault : Fault} {begun blame : Notice}
      (hbegun : begun.Announces "Evaluating grid" (sizes sheet)) (hblame : blame.Blames fault) :
      Mirrors sheet (.evaluateAll took) (.failed fault) [begun, blame]
  | cell (position : Position) (x : Binary64) :
      Mirrors sheet (.evaluateCell position) (.value x) []
  | noCell (position : Position) {fault : Fault} {blame : Notice} (hblame : blame.Blames fault) :
      Mirrors sheet (.evaluateCell position) (.failed fault) [blame]
  | reference (label : String) (x : Binary64) :
      Mirrors sheet (.evaluateReference label) (.value x) []
  | noReference (label : String) {fault : Fault} {blame : Notice}
      (hblame : blame.Blames fault) :
      Mirrors sheet (.evaluateReference label) (.failed fault) [blame]
  | quiet {step : Step} (answer : Answer) (h : step.evaluates = false) :
      Mirrors sheet step answer []

/-- A request for all cells that fails has begun. -/
theorem Mirrors.of_failed {sheet : Sheet} {took : Binary64} {fault : Fault} {notices : List Notice}
    (h : Mirrors sheet (.evaluateAll took) (.failed fault) notices) :
    ∃ begun blame : Notice, notices = [begun, blame] ∧
      begun.Announces "Evaluating grid" (sizes sheet) ∧ blame.Blames fault := by
  cases h with
  | noTable _ hbegun hblame => exact ⟨_, _, rfl, hbegun, hblame⟩
  | quiet _ h => cases h

/-- What a step shows is its answer and the notices that mirror it, as the logger writes
them.  If the logger shows its context, each of them carries the identity of the evaluation. -/
structure Shows (logger : Logger) (host : Host) (id : String) (sheet : Sheet) (step : Step)
    (shown : Answer × List Line) (notices : List Notice) : Prop where
  mirrors : Mirrors sheet step shown.1 notices
  lines_eq : shown.2 = logger.lines host notices
  id_eq : logger.config.showContext = true → ∀ notice ∈ notices,
    (notice.record.field "context").field idKey = .string id

theorem open_idKey : Redaction.Open idKey := ⟨by decide, by decide⟩

/-- The keys of the facts in a trace are no secrets. -/
theorem open_of_mem {key : String} (h : key ∈ ["rowCount", "columnCount", "duration", "label"]) :
    Redaction.Open key := by
  simp only [List.mem_cons, List.not_mem_nil, or_false] at h
  rcases h with rfl | rfl | rfl | rfl <;> exact ⟨by decide, by decide⟩

theorem kept_sizes (sheet : Sheet) : Redaction.Kept (sizes sheet) :=
  .cons (open_of_mem (by simp)) rfl (.cons (open_of_mem (by simp)) rfl Redaction.kept_nil)

theorem kept_duration (duration : Binary64) :
    Redaction.Kept [("duration", .number duration)] :=
  .cons (open_of_mem (by simp)) rfl Redaction.kept_nil

theorem kept_timing (duration : Binary64) (label : String) :
    Redaction.Kept [("duration", .number duration), ("label", .string label)] :=
  .cons (open_of_mem (by simp)) rfl (.cons (open_of_mem (by simp)) rfl Redaction.kept_nil)

/-- A notice of facts. -/
def told (logger : Logger) (host : Host) (message : String) (facts : Record) : Notice :=
  logger.notice host .debug message (.record facts) none

/-- The notice of a fault. -/
def blame (logger : Logger) (host : Host) (fault : Fault) : Notice :=
  logger.notice host .error "Grid evaluation failed" .absent (some (failureOf host fault))

theorem announces_told (logger : Logger) (host : Host) (message : String) {facts : Record}
    (h : Redaction.Kept facts) : (told logger host message facts).Announces message facts where
  toSays := logger.says_notice host .debug message (.record facts) none
  metadata_eq := logger.field_metadata_notice host .debug message none h
  error_eq := logger.field_error_notice host .debug message (.record facts) none

theorem blames_blame (logger : Logger) (host : Host) (fault : Fault) :
    (blame logger host fault).Blames fault := by
  have herror : (blame logger host fault).record.field "error" = (failureOf host fault).toValue :=
    logger.field_error_notice host .error _ .absent (some (failureOf host fault))
  exact {
    toSays := logger.says_notice host .error _ .absent (some (failureOf host fault))
    metadata_eq := logger.field_metadata_notice_absent host .error _ (some (failureOf host fault))
    name_eq := by rw [herror]; rfl
    wording_eq := by rw [herror]; rfl
    code_eq := by rw [herror]; rfl }

/-! ## One request -/

/-- The notice is one that the logger makes. -/
def MadeBy (logger : Logger) (notice : Notice) : Prop :=
  ∃ host level message metadata failure,
    notice = logger.notice host level message metadata failure

theorem madeBy_told (logger : Logger) (host : Host) (message : String) (facts : Record) :
    MadeBy logger (told logger host message facts) := ⟨_, _, _, _, _, rfl⟩

theorem madeBy_blame (logger : Logger) (host : Host) (fault : Fault) :
    MadeBy logger (blame logger host fault) := ⟨_, _, _, _, _, rfl⟩

/-- An evaluator on a host shows the answer and the lines of some notices of its logger that
mirror the answer. -/
structure Traces (evaluator : Evaluator) (host : Host) (step : Step)
    (shown : Answer × List Line) (notices : List Notice) : Prop where
  mirrors : Mirrors evaluator.sheet step shown.1 notices
  lines_eq : shown.2 = evaluator.logger.lines host notices
  made : ∀ notice ∈ notices, MadeBy evaluator.logger notice

variable (evaluator : Evaluator) (host ended : Host)

theorem traces_quiet {step : Step} (answer : Answer) (h : step.evaluates = false) :
    evaluator.Traces host step (answer, []) [] where
  mirrors := .quiet answer h
  lines_eq := rfl
  made _ hmem := absurd hmem List.not_mem_nil

theorem failureLines_eq (fault : Fault) :
    evaluator.failureLines host fault =
      evaluator.logger.lines host [blame evaluator.logger host fault] := by
  rw [blame, Logger.lines_cons, Logger.lines_nil, List.append_nil]
  rfl

/-- A request for one cell has a notice if it fails, and none if it does not. -/
theorem respond_traces {step : Step} (result : Outcome × Progress)
    (hok : ∀ x, Mirrors evaluator.sheet step (.value x) [])
    (hfault : ∀ fault notice, notice.Blames fault →
      Mirrors evaluator.sheet step (.failed fault) [notice]) :
    ∃ notices, evaluator.Traces host step
      (Answer.ofOutcome (evaluator.respond host result).1, (evaluator.respond host result).2.1)
      notices := by
  obtain ⟨outcome, progress⟩ := result
  cases outcome with
  | ok x => exact ⟨[], hok x, rfl, fun _ hmem => absurd hmem List.not_mem_nil⟩
  | error fault =>
    refine ⟨[blame evaluator.logger host fault], ?_, ?_, ?_⟩
    · exact hfault fault _ (blames_blame evaluator.logger host fault)
    · exact evaluator.failureLines_eq host fault
    · intro notice hmem
      rw [List.mem_singleton.mp hmem]
      exact madeBy_blame evaluator.logger host fault

/-- The notices of a request for all cells, from its begin on one host to its end on another. -/
def noticesOfAll (duration : Binary64) : Except Fault Table → List Notice
  | .ok _ =>
    [told evaluator.logger host "Evaluating grid" (sizes evaluator.sheet),
      told evaluator.logger ended "Timer [evaluateAll]"
        [("duration", .number duration), ("label", .string "evaluateAll")],
      told evaluator.logger ended "Grid evaluated"
        (sizes evaluator.sheet ++ [("duration", .number duration)])]
  | .error fault =>
    [told evaluator.logger host "Evaluating grid" (sizes evaluator.sheet),
      blame evaluator.logger ended fault]

theorem mirrors_noticesOfAll (took duration : Binary64) (result : Except Fault Table) :
    Mirrors evaluator.sheet (.evaluateAll took) (Answer.ofTable result)
      (evaluator.noticesOfAll host ended duration result) := by
  have hsizes := kept_sizes evaluator.sheet
  have hbegun := announces_told evaluator.logger host "Evaluating grid" hsizes
  cases result with
  | error fault => exact .noTable took hbegun (blames_blame evaluator.logger ended fault)
  | ok rows =>
    have htimed := announces_told evaluator.logger ended "Timer [evaluateAll]"
      (kept_timing duration "evaluateAll")
    have hended := announces_told evaluator.logger ended "Grid evaluated"
      (hsizes.append (kept_duration duration))
    exact .table took hbegun htimed hended

theorem madeBy_of_mem_noticesOfAll {duration : Binary64} {result : Except Fault Table}
    {notice : Notice} (h : notice ∈ evaluator.noticesOfAll host ended duration result) :
    MadeBy evaluator.logger notice := by
  cases result with
  | error fault =>
    rcases List.mem_pair.mp h with rfl | rfl
    · exact madeBy_told ..
    · exact madeBy_blame ..
  | ok rows =>
    simp only [noticesOfAll, List.mem_cons, List.not_mem_nil, or_false] at h
    rcases h with rfl | rfl | rfl <;> exact madeBy_told ..

/-- The duration is what the clock at the end is ahead of the clock at the begin. -/
theorem evaluateAll_lines (took : Binary64) :
    (evaluator.evaluateAll host (host.advance took)).2.1 = evaluator.logger.lines host
      (evaluator.noticesOfAll host (host.advance took) ((host.advance took).clock - host.clock)
        (evaluator.evaluateAll host (host.advance took)).1) := by
  have hend : ∀ notices, evaluator.logger.lines (host.advance took) notices =
      evaluator.logger.lines host notices := evaluator.logger.lines_clock host _
  unfold evaluateAll
  cases evaluator.sheet.evaluateAll evaluator.progress with
  | mk result progress =>
    cases result with
    | error fault =>
      rw [noticesOfAll, told, Logger.lines_cons, ← hend, ← failureLines_eq]
      rfl
    | ok rows =>
      rw [noticesOfAll, told, Logger.lines_cons, ← hend, told, Logger.lines_cons, told,
        Logger.lines_cons, Logger.lines_nil, List.append_nil]
      rfl

theorem evaluateAll_traces (took : Binary64) :
    ∃ notices, evaluator.Traces host (.evaluateAll took)
      (Answer.ofTable (evaluator.evaluateAll host (host.advance took)).1,
        (evaluator.evaluateAll host (host.advance took)).2.1) notices :=
  ⟨_, mirrors_noticesOfAll evaluator host (host.advance took) took _ _,
    evaluateAll_lines evaluator host took,
    fun _ hmem => madeBy_of_mem_noticesOfAll evaluator host (host.advance took) hmem⟩

/-! ## Every step of a run -/

namespace Session

variable {session : Session}

/-- What the log of a session depends on, apart from the clock. -/
structure SameLog (earlier later : Session) : Prop where
  host_eq : ∃ clock, later.host = { earlier.host with clock := clock }
  sheet_eq : later.evaluator.sheet = earlier.evaluator.sheet
  logger_eq : later.evaluator.logger = earlier.evaluator.logger

theorem SameLog.refl (session : Session) : session.SameLog session :=
  ⟨⟨session.host.clock, rfl⟩, rfl, rfl⟩

theorem SameLog.trans {a b c : Session} (hab : a.SameLog b) (hbc : b.SameLog c) :
    a.SameLog c := by
  obtain ⟨earlier, hb⟩ := hab.host_eq
  obtain ⟨later, hc⟩ := hbc.host_eq
  exact ⟨⟨later, by rw [hc, hb]⟩, hbc.sheet_eq.trans hab.sheet_eq,
    hbc.logger_eq.trans hab.logger_eq⟩

theorem step_sameLog (session : Session) (step : Step) :
    session.SameLog (session.step step).2.2 := by
  cases step with
  | evaluateAll took =>
    rw [step_evaluateAll_eq]
    exact ⟨⟨session.host.clock + took, rfl⟩, rfl, rfl⟩
  | evaluateCell position =>
    rw [step, respond_eq]
    exact ⟨⟨session.host.clock, rfl⟩, rfl, rfl⟩
  | evaluateReference label =>
    rw [step, respond_eq]
    exact ⟨⟨session.host.clock, rfl⟩, rfl, rfl⟩
  | _ =>
    refine ⟨(step_quiet session rfl).2.2, ?_, ?_⟩
    · rw [(step_quiet session rfl).2.1]
    · rw [(step_quiet session rfl).2.1]

theorem step_traces (session : Session) (step : Step) :
    ∃ notices, session.evaluator.Traces session.host step
      ((session.step step).1, (session.step step).2.1) notices := by
  cases step with
  | evaluateAll took =>
    rw [step_evaluateAll_eq]
    exact evaluateAll_traces session.evaluator session.host took
  | evaluateCell position =>
    rw [step, respond_eq]
    exact respond_traces session.evaluator session.host _ (.cell position)
      fun _ _ hblame => .noCell position hblame
  | evaluateReference label =>
    rw [step, respond_eq]
    exact respond_traces session.evaluator session.host _ (.reference label)
      fun _ _ hblame => .noReference label hblame
  | _ =>
    rw [(step_quiet session rfl).1]
    exact ⟨[], traces_quiet _ _ _ rfl⟩

variable {host : Host} {logger : Logger} {id : String} {sheet : Sheet}

/-- A session that started with a logger writes as a child of it with the identity. -/
theorem shows_of_traces (hsame : (fresh host logger id sheet).SameLog session) {step : Step}
    {shown : Answer × List Line} {notices : List Notice}
    (h : session.evaluator.Traces session.host step shown notices) :
    Shows logger host id sheet step shown notices := by
  have hlogger : session.evaluator.logger = logger.child host [(idKey, .string id)] :=
    hsame.logger_eq
  have hsheet : session.evaluator.sheet = sheet := hsame.sheet_eq
  obtain ⟨clock, hhost⟩ := hsame.host_eq
  obtain ⟨hmirrors, hlines, hmade⟩ := h
  rw [hsheet] at hmirrors
  rw [hlogger, hhost, Logger.lines_child] at hlines
  refine ⟨hmirrors, hlines, fun hshow notice hmem => ?_⟩
  obtain ⟨made, level, message, metadata, failure, rfl⟩ := hmade notice hmem
  rw [hlogger]
  exact logger.field_context_notice_child made level message metadata failure open_idKey host hshow

theorem run_shows (hsame : (fresh host logger id sheet).SameLog session) (steps : List Step) :
    List.Forall₂
      (fun step shown => ∃ notices, Shows logger host id sheet step shown notices)
      steps (session.run steps) := by
  induction steps generalizing session with
  | nil => exact .nil
  | cons step rest ih =>
    obtain ⟨notices, htraces⟩ := step_traces session step
    rw [run_cons]
    exact .cons ⟨notices, shows_of_traces hsame htraces⟩
      (ih (hsame.trans (step_sameLog session step)))

/-- Each step of a run writes exactly the notices that mirror its answer, in their order and
filtered by the level of the logger; each of them carries the identity of the evaluation if
the logger shows its context, whatever the logger knew under that key. -/
theorem trace_mirrors_answers (host : Host) (logger : Logger) (id : String) (sheet : Sheet)
    (steps : List Step) :
    List.Forall₂
      (fun step shown => ∃ notices, Shows logger host id sheet step shown notices)
      steps ((fresh host logger id sheet).run steps) :=
  run_shows (SameLog.refl _) steps

/-- A logger at the level of errors leaves out that the evaluation began, and the identity of
an outer evaluation gives way. -/
theorem trace_mirrors_answers_nested :
    let sheet : Sheet := ⟨[["=A1"]], by decide⟩
    let host : Host := ⟨"", 0, 0, [], 0, 0⟩
    let logger : Logger := ⟨⟨Level.error.value, .json, false, true, true, "", none⟩,
      [("evaluationId", .string "outer")], 0⟩
    ∃ blame : Notice, blame.Blames (.circularReference "A1") ∧
      (blame.record.field "context").field "evaluationId" = .string "inner" ∧
      ((fresh host logger "inner" sheet).run [.evaluateAll]).map Prod.snd =
        [[⟨.error, Json.render .compact blame.record⟩]] := by
  intro sheet host logger
  have hanswer : ((fresh host logger "inner" sheet).step .evaluateAll).1 =
      .failed (.circularReference "A1") := by
    have hresult : ((fresh host logger "inner" sheet).walk 0).1 =
        .error (.circularReference "A1") := by decide +kernel
    rw [fst_step_evaluateAll]
    exact congrArg Answer.ofTable hresult
  have hsilent : logger.writes Level.debug.value = false := by decide +kernel
  have hloud : logger.writes Level.error.value = true := by decide +kernel
  have hrun := trace_mirrors_answers host logger "inner" sheet [.evaluateAll]
  rw [run_cons] at hrun ⊢
  obtain ⟨notices, hmirrors, hlines, hid⟩ := (List.forall₂_cons.mp hrun).1
  rw [hanswer] at hmirrors
  obtain ⟨begun, blame, rfl, hbegun, hblame⟩ := hmirrors.of_failed
  refine ⟨blame, hblame, hid rfl _ (by simp), ?_⟩
  rw [List.map_cons, hlines, Logger.lines, List.filter_cons, hbegun.level_eq, hsilent,
    List.filter_cons, hblame.level_eq, hloud]
  show [[Line.mk (Level.stream _) _]] = _
  rw [hblame.level_eq]
  rfl

end Session
end Evaluator
end Worksheet
