/-
Filtering, questions and streams agree.

Three places look at a level: a logger when it writes, a logger when it is asked whether it would
write, and the choice of the stream.  `filtering_agrees` says of every session what a reader may
rely on: a call writes one line if the level of the call is enabled and nothing otherwise, stopping
a timer is such a call, nothing else writes, and children answer as their root does, which answers
by the level it was made with.

It also compares two sessions.  Where the levels of root loggers are raised and everything else is
done again, lines go missing and none is new.  The invariant is `Session.Raised`: both sessions
have the same loggers and timers up to levels, and no level is lower in the second one.  A level
may be any number, also one between two levels or above all of them, and the silent level is no
exception although it filters in a way of its own: what is above it lets no level through either.
-/
import Worksheet.Proofs.Binary64.Natural
import Worksheet.Proofs.Log.Noninterference
import Worksheet.Proofs.Log.Notice
import Worksheet.Proofs.Log.Word
import Mathlib.Data.List.Flatten
import Mathlib.Logic.Relation

namespace Worksheet

/-! ## Levels -/

namespace Level

/-- The stream on which a level is written. -/
inductive Goes : Level → Stream → Prop
  | error : Goes .error .error
  | fatal : Goes .fatal .error
  | warn : Goes .warn .warn
  | other {level : Level} (h : level ∉ [.error, .fatal, .warn]) : Goes level .log

/-- One line on the stream of the level if the level is enabled, and nothing otherwise. -/
inductive Heard (level : Level) : Bool → List Line → Prop
  | line (line : Line) (h : level.Goes line.stream) : Heard level true [line]
  | nothing : Heard level false []

/-- A question about the level: by its number, or by its word in any case. -/
inductive Asked (level : Level) : Logger.Query → Prop
  | number : Asked level (.number level.value)
  | word (text : String) (h : Text.InAnyCase text level.word) : Asked level (.word text)

theorem goes_stream (level : Level) : level.Goes level.stream := by
  cases level with
  | error => exact .error
  | fatal => exact .fatal
  | warn => exact .warn
  | _ => exact .other (by decide)

theorem heard_of_stream (level : Level) (enabled : Bool) (text : String) :
    level.Heard enabled (if enabled then [⟨level.stream, text⟩] else []) := by
  cases enabled with
  | true => exact .line _ level.goes_stream
  | false => exact .nothing

theorem value_le_silent (level : Level) : level.value.le silent.value = true :=
  Binary64.le_ofNat (Nat.le_trans level.number_le (by decide)) (by decide) level.number_le

end Level

namespace Logger

theorem level_ofOverrides (host : Host) (overrides : Overrides) (context : Record) :
    (ofOverrides host overrides context).config.level =
      overrides.level.getD Level.info.value := by
  simp only [ofOverrides, Config.override, Config.standard]

/-! ## Sessions with roots of any kind -/

/-- The step that asks a logger for a call. -/
def Call.on (number : Nat) : Call → Step
  | .write level message metadata => .write number level message metadata
  | .report level message subject metadata => .report number level message subject metadata

/-- What happens next: a new root logger, set in a way of its own, or a step. -/
inductive Move where
  | make (overrides : Overrides) (context : Record)
  | step (step : Step)

/-- The moves that may write: calls, and stopping a timer. -/
inductive Move.MayWrite : Move → Prop
  | write (number : Nat) (level : Level) (message : String) (metadata : Value) :
      MayWrite (.step (.write number level message metadata))
  | report (number : Nat) (level : Level) (message : String) (subject : Subject)
      (metadata : Value) : MayWrite (.step (.report number level message subject metadata))
  | stopTimer (timer : Nat) : MayWrite (.step (.stopTimer timer))

namespace Session

variable (session : Session)

/-- A new root logger is made as if the session made all of them in that way. -/
def play : Move → Answer × List Line × Session
  | .make overrides context =>
    let (answer, lines, after) :=
      { session with recipe := .plain overrides context }.step .create
    (answer, lines, { after with recipe := session.recipe })
  | .step step => session.step step

def after (session : Session) : List Move → Session
  | [] => session
  | move :: moves => after (session.play move).2.2 moves

/-- The lines of all moves, in order. -/
def output (session : Session) : List Move → List Line
  | [] => []
  | move :: moves => (session.play move).2.1 ++ output (session.play move).2.2 moves

/-- What a logger answers when it is asked whether it writes. -/
def asks (number : Nat) (query : Query) : Answer := (session.step (.writes number query)).1

/-- The lines are what the logger has to write at the level, by its own answers. -/
def Filters (number : Nat) (level : Level) (lines : List Line) : Prop :=
  ∃ enabled, (∀ query, level.Asked query → session.asks number query = .flag enabled) ∧
    level.Heard enabled lines

/-- Among the moves, the root logger is made with the level. -/
inductive Makes (moves : List Move) : Nat → Binary64 → Prop
  | root {earlier later : List Move} {overrides : Overrides} {context : Record}
      (hmoves : moves = earlier ++ .make overrides context :: later) :
      Makes moves (session.after earlier).loggers.length (overrides.level.getD Level.info.value)

/-- Among the moves, the first logger makes the second one. -/
inductive Begets (moves : List Move) : Nat → Nat → Prop
  | child {earlier later : List Move} {parent : Nat} {context : Record}
      (hmoves : moves = earlier ++ .step (.child parent context) :: later)
      (hparent : parent < (session.after earlier).loggers.length) :
      Begets moves parent (session.after earlier).loggers.length

/-- Among the moves, the logger starts the timer, when the clock shows the time. -/
inductive Starts (moves : List Move) : Nat → Nat → Binary64 → Prop
  | timer {earlier later : List Move} {number : Nat} {label : String}
      (hmoves : moves = earlier ++ .step (.startTimer number label) :: later)
      (hnumber : number < (session.after earlier).loggers.length) :
      Starts moves number (session.after earlier).timers.length (session.after earlier).host.clock

variable {session}

theorem after_append (earlier later : List Move) :
    session.after (earlier ++ later) = (session.after earlier).after later := by
  induction earlier generalizing session with
  | nil => rfl
  | cons move earlier ih => exact ih

/-! ## One session -/

variable {number : Nat} {logger : Logger} {level : Level}

theorem on_of_getElem? (h : session.loggers[number]? = some logger)
    (act : Logger → Answer × List Line × Session) : session.on number act = act logger := by
  rw [Session.on, h]

theorem asks_of_getElem? (h : session.loggers[number]? = some logger) {query : Query}
    (hquery : level.Asked query) :
    session.asks number query = .flag (logger.writes level.value) := by
  cases hquery with
  | number => rw [asks, Session.step, on_of_getElem? h]
  | word text hcase =>
    rw [asks, Session.step, on_of_getElem? h, writesWord, Level.ofWord_of_inAnyCase hcase]

theorem filters_of_getElem? (h : session.loggers[number]? = some logger) (call : Call) :
    session.Filters number call.level (logger.perform session.host call) := by
  rw [perform_eq]
  exact ⟨logger.writes call.level.value, fun _ hquery => asks_of_getElem? h hquery,
    call.level.heard_of_stream _ _⟩

theorem step_call (number : Nat) (call : Call) :
    session.step (call.on number) =
      session.on number fun logger => (.done, logger.perform session.host call, session) := by
  cases call <;> rfl

end Session

/-- What a timer has to say when it is stopped. -/
def Call.ofTimer (timer : Timer) (host : Host) : Call :=
  .write .debug ("Timer [" ++ timer.label ++ "]")
    (.record [("duration", .number (host.clock - timer.started)), ("label", .string timer.label)])

namespace Session

variable {session : Session} {number : Nat}

theorem step_stopTimer {timer : Timer} (h : session.timers[number]? = some timer) :
    session.step (.stopTimer number) = (.number (session.host.clock - timer.started),
      timer.logger.perform session.host (.ofTimer timer session.host), session) := by
  simp only [Session.step, h]
  rfl

/-- What a move does: it writes and leaves the session as it is, or it changes one part of the
session and writes nothing. -/
inductive Outcome (session : Session) (move : Move) : List Line → Session → Prop
  | wrote (lines : List Line) (h : move.MayWrite) : Outcome session move lines session
  | moved (host : Host) : Outcome session move [] { session with host := host }
  | made (logger : Logger) :
      Outcome session move [] { session with loggers := session.loggers ++ [logger] }
  | started (timer : Timer) :
      Outcome session move [] { session with timers := session.timers ++ [timer] }

theorem Outcome.on {move : Move} {act : Logger → Answer × List Line × Session}
    (h : ∀ logger, session.Outcome move (act logger).2.1 (act logger).2.2) :
    session.Outcome move (session.on number act).2.1 (session.on number act).2.2 := by
  unfold Session.on
  split
  · exact h _
  · exact .moved session.host

/-- The step lemma of one session. -/
theorem outcome_step {overrides : Overrides} {context : Record}
    (h : session.recipe = .plain overrides context) (step : Step) :
    session.Outcome (.step step) (session.step step).2.1 (session.step step).2.2 := by
  cases step with
  | create =>
    rw [Session.step, h]
    exact .made _
  | write number level message metadata =>
    exact .on fun _ => .wrote _ (.write number level message metadata)
  | report number level message subject metadata =>
    exact .on fun _ => .wrote _ (.report number level message subject metadata)
  | child number context => exact .on fun _ => .made _
  | startTimer number label => exact .on fun _ => .started _
  | stopTimer number =>
    simp only [Session.step]
    split
    · exact .wrote _ (.stopTimer number)
    · exact .moved session.host
  | levelName number => exact .on fun _ => .moved session.host
  | writes number query => cases query <;> exact .on fun _ => .moved session.host
  | advance ms => exact .moved _
  | setVariable name value => exact .moved _

theorem outcome_play {overrides : Overrides} {context : Record}
    (h : session.recipe = .plain overrides context) (move : Move) :
    session.Outcome move (session.play move).2.1 (session.play move).2.2 := by
  cases move with
  | make overrides' context' => exact .made _
  | step step => exact outcome_step h step

theorem Outcome.lines_eq_nil {move : Move} {lines : List Line} {later : Session}
    (h : session.Outcome move lines later) (hmove : ¬ move.MayWrite) : lines = [] := by
  cases h with
  | wrote lines hwrites => exact absurd hwrites hmove
  | moved | made | started => rfl

/-- A later session has the loggers and the timers of an earlier one under their numbers. -/
structure Grows (session later : Session) : Prop where
  recipe_eq : later.recipe = session.recipe
  loggers : session.loggers <+: later.loggers
  timers : session.timers <+: later.timers

theorem Grows.refl (session : Session) : session.Grows session :=
  ⟨rfl, List.prefix_refl _, List.prefix_refl _⟩

theorem Grows.trans {later last : Session} (h : session.Grows later) (hlast : later.Grows last) :
    session.Grows last :=
  ⟨hlast.recipe_eq.trans h.recipe_eq, h.loggers.trans hlast.loggers, h.timers.trans hlast.timers⟩

theorem Outcome.grows {move : Move} {lines : List Line} {later : Session}
    (h : session.Outcome move lines later) : session.Grows later := by
  cases h with
  | wrote | moved => exact ⟨rfl, List.prefix_refl _, List.prefix_refl _⟩
  | made logger => exact ⟨rfl, List.prefix_append _ _, List.prefix_refl _⟩
  | started timer => exact ⟨rfl, List.prefix_refl _, List.prefix_append _ _⟩

theorem getElem?_of_isPrefix {α : Type} {items later : List α} {n : Nat} {item : α}
    (h : items <+: later) (hitem : items[n]? = some item) : later[n]? = some item := by
  obtain ⟨hless, rfl⟩ := List.getElem?_eq_some_iff.mp hitem
  exact List.prefix_iff_getElem?.mp h n hless

section

variable {overrides : Overrides} {context : Record} {moves : List Move}

/-- The run lemma of one session. -/
theorem grows_after (h : session.recipe = .plain overrides context) (moves : List Move) :
    session.Grows (session.after moves) := by
  induction moves generalizing session with
  | nil => exact .refl session
  | cons move moves ih =>
    have hfirst := (outcome_play h move).grows
    exact hfirst.trans (ih (hfirst.recipe_eq.trans h))

/-- What one move leaves is still there at the end. -/
theorem grows_after_append (h : session.recipe = .plain overrides context)
    (earlier later : List Move) (move : Move) :
    ((session.after earlier).play move).2.2.Grows (session.after (earlier ++ move :: later)) := by
  have hearlier := (grows_after h earlier).recipe_eq.trans h
  have hmove := (outcome_play hearlier move).grows
  rw [after_append]
  exact grows_after (hmove.recipe_eq.trans hearlier) later

/-- A root answers by the level that it was made with. -/
theorem Makes.asks_number (h : session.recipe = .plain overrides context) {root : Nat}
    {x : Binary64} (hmakes : session.Makes moves root x) (y : Binary64) :
    (session.after moves).asks root (.number y) =
      .flag (x.le y && !x.eq Level.silent.value) := by
  cases hmakes with
  | @root earlier later overrides' context' hmoves =>
    subst hmoves
    have hgrows := grows_after_append h earlier later (.make overrides' context')
    have hlogger := getElem?_of_isPrefix hgrows.loggers List.getElem?_concat_length
    rw [asks, Session.step, on_of_getElem? hlogger, writes, level_ofOverrides]

theorem asks_eq_of_config {parent child : Nat} {logger logger' : Logger}
    (h : session.loggers[parent]? = some logger) (h' : session.loggers[child]? = some logger')
    (hconfig : logger'.config = logger.config) (query : Query) :
    session.asks child query = session.asks parent query := by
  cases query with
  | number x =>
    rw [asks, asks, Session.step, Session.step, on_of_getElem? h, on_of_getElem? h', writes,
      writes, hconfig]
  | word s =>
    have hwrites (x : Binary64) : logger'.writes x = logger.writes x := by
      rw [writes, writes, hconfig]
    simp only [asks, Session.step, on_of_getElem? h, on_of_getElem? h', writesWord, hwrites]

/-- A child answers as the logger that made it. -/
theorem Begets.asks_eq (h : session.recipe = .plain overrides context) {parent child : Nat}
    (hbegets : session.Begets moves parent child) (query : Query) :
    (session.after moves).asks child query = (session.after moves).asks parent query := by
  cases hbegets with
  | @child earlier later parent context' hmoves hparent =>
    subst hmoves
    have hlogger := List.getElem?_eq_getElem hparent
    have hgrows := grows_after_append h earlier later (.step (.child parent context'))
    rw [play, Session.step, on_of_getElem? hlogger] at hgrows
    exact asks_eq_of_config
      (getElem?_of_isPrefix ((List.prefix_append _ _).trans hgrows.loggers) hlogger)
      (getElem?_of_isPrefix hgrows.loggers List.getElem?_concat_length) rfl query

/-- A timer that was started keeps its logger and the time of its start. -/
theorem Starts.exists_timer (h : session.recipe = .plain overrides context) {number timer : Nat}
    {clock : Binary64} (hstarts : session.Starts moves number timer clock) :
    ∃ logger label, (session.after moves).loggers[number]? = some logger ∧
      (session.after moves).timers[timer]? = some ⟨logger, label, clock⟩ := by
  cases hstarts with
  | @timer earlier later number label hmoves hnumber =>
    subst hmoves
    have hlogger := List.getElem?_eq_getElem hnumber
    have hgrows := grows_after_append h earlier later (.step (.startTimer number label))
    rw [play, Session.step, on_of_getElem? hlogger] at hgrows
    exact ⟨_, label, getElem?_of_isPrefix hgrows.loggers hlogger,
      getElem?_of_isPrefix hgrows.timers List.getElem?_concat_length⟩

end

end Session

/-! ## Two sessions -/

/-- The same logger, or one that is set to a higher level. -/
inductive Raised (logger : Logger) : Logger → Prop
  | same : Raised logger logger
  | level {x : Binary64} (h : logger.config.level.lt x = true) :
      Raised logger { logger with config := { logger.config with level := x } }

variable {logger logger' : Logger}

/-- A higher level lets less through.  Nothing passes the silent level, and nothing passes a level
above it, since no level is higher than the silent one. -/
theorem Raised.writes (h : logger.Raised logger') {level : Level}
    (hwrites : logger'.writes level.value = true) : logger.writes level.value = true := by
  cases h with
  | same => exact hwrites
  | @level x hless =>
    have hle : x.le level.value = true := ((Bool.and_eq_true _ _).mp hwrites).1
    have hlevel := Binary64.lt_of_lt_of_le hless hle
    have hsilent := Binary64.lt_of_lt_of_le hlevel level.value_le_silent
    rw [Logger.writes, Binary64.le_of_lt hlevel, Binary64.eq_eq_false_of_lt hsilent]
    rfl

theorem Raised.perform (h : logger.Raised logger') (host : Host) (call : Call) :
    logger'.perform host call = logger.perform host call ∨ logger'.perform host call = [] := by
  have htext : logger'.textOf host (logger'.entryOf host call).toValue =
      logger.textOf host (logger.entryOf host call).toValue := by
    cases h <;> rfl
  rw [perform_eq, perform_eq, htext]
  by_cases hwrites : logger'.writes call.level.value = true
  · rw [if_pos hwrites, if_pos (h.writes hwrites)]
    exact .inl rfl
  · rw [if_neg hwrites]
    exact .inr rfl

theorem Raised.child (h : logger.Raised logger') (host : Host) (context : Record) :
    (logger.child host context).Raised (logger'.child host context) := by
  cases h with
  | same => exact .same
  | level hless => exact .level hless

end Logger

/-- The same overrides, or a higher level than they lead to. -/
inductive Overrides.Raised (overrides : Overrides) : Overrides → Prop
  | same : Raised overrides overrides
  | level {x : Binary64} (h : (overrides.level.getD Level.info.value).lt x = true) :
      Raised overrides { overrides with level := some x }

theorem Overrides.Raised.ofOverrides {overrides overrides' : Overrides}
    (h : overrides.Raised overrides') (host : Host) (context : Record) :
    (Logger.ofOverrides host overrides context).Raised (.ofOverrides host overrides' context) := by
  cases h with
  | same => exact .same
  | level hless =>
    rw [← Logger.level_ofOverrides host overrides context] at hless
    exact .level hless

/-- The same timer, of a logger whose level may be higher. -/
structure Timer.Raised (timer timer' : Timer) : Prop where
  logger : timer.logger.Raised timer'.logger
  label_eq : timer'.label = timer.label
  started_eq : timer'.started = timer.started

namespace Logger

inductive Recipe.Raised : Recipe → Recipe → Prop
  | plain {overrides overrides' : Overrides} (h : overrides.Raised overrides') (context : Record) :
      Recipe.Raised (.plain overrides context) (.plain overrides' context)

/-- The same move, or a root logger that is made with a higher level. -/
inductive Move.Raised : Move → Move → Prop
  | make {overrides overrides' : Overrides} (h : overrides.Raised overrides') (context : Record) :
      Move.Raised (.make overrides context) (.make overrides' context)
  | step (step : Step) : Move.Raised (.step step) (.step step)

namespace Session

/-- Two sessions with the same loggers and timers, where levels of the second one may be higher. -/
structure Raised (session session' : Session) : Prop where
  host_eq : session'.host = session.host
  recipe : session.recipe.Raised session'.recipe
  loggers : List.Forall₂ Logger.Raised session.loggers session'.loggers
  timers : List.Forall₂ Timer.Raised session.timers session'.timers

/-- The same lines or none, and sessions that are related as before. -/
structure ThinnedAfter (response response' : Answer × List Line × Session) : Prop where
  lines : response'.2.1 = response.2.1 ∨ response'.2.1 = []
  after : response.2.2.Raised response'.2.2

variable {session session' : Session}

theorem Raised.on (h : session.Raised session') (number : Nat)
    {act act' : Logger → Answer × List Line × Session}
    (hact : ∀ logger logger', logger.Raised logger' → ThinnedAfter (act logger) (act' logger')) :
    ThinnedAfter (session.on number act) (session'.on number act') :=
  on_related h.loggers ⟨.inl rfl, h⟩ number hact

theorem Raised.add (h : session.Raised session') {logger logger' : Logger}
    (hlogger : logger.Raised logger') : (session.add logger).2.Raised (session'.add logger').2 :=
  ⟨h.host_eq, h.recipe, List.rel_append h.loggers (.cons hlogger .nil), h.timers⟩

theorem Raised.withHost (h : session.Raised session') (change : Host → Host) :
    Raised { session with host := change session.host }
      { session' with host := change session'.host } :=
  ⟨congrArg change h.host_eq, h.recipe, h.loggers, h.timers⟩

theorem Raised.step_create (h : session.Raised session') :
    ThinnedAfter (session.step .create) (session'.step .create) := by
  obtain ⟨host, recipe, loggers, timers⟩ := session
  obtain ⟨host', recipe', loggers', timers'⟩ := session'
  obtain rfl : host' = host := h.host_eq
  have hrecipe : recipe.Raised recipe' := h.recipe
  cases hrecipe with
  | plain hoverrides context => exact ⟨.inl rfl, h.add (hoverrides.ofOverrides host' context)⟩

theorem Raised.step_call (h : session.Raised session') (number : Nat) (call : Call) :
    ThinnedAfter (session.step (call.on number)) (session'.step (call.on number)) := by
  rw [Session.step_call, Session.step_call, h.host_eq]
  apply h.on
  intro logger logger' hraised
  exact ⟨hraised.perform session.host call, h⟩

theorem Raised.step_startTimer (h : session.Raised session') (number : Nat) (label : String) :
    ThinnedAfter (session.step (.startTimer number label))
      (session'.step (.startTimer number label)) := by
  apply h.on
  intro logger logger' hraised
  have htimer : Timer.Raised (.start logger session.host label)
      (.start logger' session'.host label) :=
    ⟨hraised, rfl, congrArg Host.clock h.host_eq⟩
  exact ⟨.inl rfl, h.host_eq, h.recipe, h.loggers, List.rel_append h.timers (.cons htimer .nil)⟩

theorem Raised.step_stopTimer (h : session.Raised session') (number : Nat) :
    ThinnedAfter (session.step (.stopTimer number)) (session'.step (.stopTimer number)) := by
  obtain ⟨hnone, hnone'⟩ | ⟨timer, timer', hsome, hsome', htimer⟩ :=
    getElem?_cases h.timers number
  · simp only [Session.step, hnone, hnone']
    exact ⟨.inl rfl, h⟩
  · have hcall : Call.ofTimer timer' session.host = .ofTimer timer session.host := by
      rw [Call.ofTimer, Call.ofTimer, htimer.label_eq, htimer.started_eq]
    rw [Session.step_stopTimer hsome, Session.step_stopTimer hsome', h.host_eq, hcall]
    exact ⟨htimer.logger.perform session.host (.ofTimer timer session.host), h⟩

/-- The step lemma of two sessions. -/
theorem Raised.step (h : session.Raised session') (step : Step) :
    ThinnedAfter (session.step step) (session'.step step) := by
  cases step with
  | create => exact h.step_create
  | write number level message metadata =>
    exact h.step_call number (.write level message metadata)
  | report number level message subject metadata =>
    exact h.step_call number (.report level message subject metadata)
  | child number context =>
    apply h.on
    intro logger logger' hraised
    rw [h.host_eq]
    exact ⟨.inl rfl, h.add (hraised.child session.host context)⟩
  | startTimer number label => exact h.step_startTimer number label
  | stopTimer number => exact h.step_stopTimer number
  | levelName number => exact h.on number fun _ _ _ => ⟨.inl rfl, h⟩
  | writes number query => cases query <;> exact h.on number fun _ _ _ => ⟨.inl rfl, h⟩
  | advance ms => exact ⟨.inl rfl, h.withHost fun host => host.advance ms⟩
  | setVariable name value =>
    cases value with
    | none =>
      exact ⟨.inl rfl,
        h.withHost fun host => { host with environment := host.environment.unset name }⟩
    | some value =>
      exact ⟨.inl rfl,
        h.withHost fun host => { host with environment := host.environment.set name value }⟩

theorem Raised.play (h : session.Raised session') {move move' : Move}
    (hmove : move.Raised move') : ThinnedAfter (session.play move) (session'.play move') := by
  cases hmove with
  | step step => exact h.step step
  | make hoverrides context =>
    have hmade : Raised { session with recipe := .plain _ context }
        { session' with recipe := .plain _ context } :=
      ⟨h.host_eq, .plain hoverrides context, h.loggers, h.timers⟩
    obtain ⟨hlines, hhost, -, hloggers, htimers⟩ := hmade.step_create
    exact ⟨hlines, hhost, h.recipe, hloggers, htimers⟩

/-- The run lemma of two sessions. -/
theorem Raised.output_sublist (h : session.Raised session') {moves moves' : List Move}
    (hmoves : List.Forall₂ Move.Raised moves moves') :
    (session'.output moves').Sublist (session.output moves) := by
  induction hmoves generalizing session session' with
  | nil => exact List.nil_sublist _
  | cons hmove _ ih =>
    obtain ⟨hlines, hafter⟩ := h.play hmove
    refine List.Sublist.append ?_ (ih hafter)
    obtain hsame | hnone := hlines
    · rw [hsame]
    · rw [hnone]
      exact List.nil_sublist _

/-! ## Every session -/

/-- In every session a call writes one line, on the stream of its level, if its level is enabled by
the logger's own answer to any question about it, and nothing otherwise.  Stopping a timer returns
the time since its start and writes as a call at the debug level does.  Other moves write nothing.
A root answers by the level it was made with, and a child as every logger it descends from.
Raising levels of root loggers only takes lines away. -/
theorem filtering_agrees (host : Host) (overrides : Overrides) (context : Record)
    (moves : List Move) :
    let first := start host (.plain overrides context)
    let session := first.after moves
    (∀ number < session.loggers.length, ∀ call : Call,
      session.Filters number call.level (session.step (call.on number)).2.1) ∧
    (∀ number timer clock, first.Starts moves number timer clock →
      (session.step (.stopTimer timer)).1 = .number (session.host.clock - clock) ∧
        session.Filters number .debug (session.step (.stopTimer timer)).2.1) ∧
    (∀ move : Move, ¬ move.MayWrite → (session.play move).2.1 = []) ∧
    (∀ root x, first.Makes moves root x → ∀ y,
      session.asks root (.number y) = .flag (x.le y && !x.eq Level.silent.value)) ∧
    (∀ root child, Relation.TransGen (first.Begets moves) root child →
      ∀ query, session.asks child query = session.asks root query) ∧
    ∀ overrides' moves', overrides.Raised overrides' → List.Forall₂ Move.Raised moves moves' →
      ((start host (.plain overrides' context)).output moves').Sublist (first.output moves) := by
  intro first session
  have hfirst : first.recipe = .plain overrides context := rfl
  have hsession : session.recipe = .plain overrides context :=
    (grows_after hfirst moves).recipe_eq.trans hfirst
  refine ⟨?_, ?_, ?_, ?_, ?_, ?_⟩
  · intro number hnumber call
    have hlogger := List.getElem?_eq_getElem hnumber
    rw [step_call, on_of_getElem? hlogger]
    exact filters_of_getElem? hlogger call
  · intro number timer clock hstarts
    obtain ⟨logger, label, hlogger, htimer⟩ := hstarts.exists_timer hfirst
    rw [step_stopTimer htimer]
    exact ⟨rfl, filters_of_getElem? hlogger (.ofTimer ⟨logger, label, clock⟩ session.host)⟩
  · intro move hmove
    exact (outcome_play hsession move).lines_eq_nil hmove
  · intro root x hmakes y
    exact hmakes.asks_number hfirst y
  · intro root child hdescends query
    induction hdescends with
    | single hbegets => exact hbegets.asks_eq hfirst query
    | tail _ hbegets ih => exact (hbegets.asks_eq hfirst query).trans ih
  · intro overrides' moves' hoverrides hmoves
    have hraised : first.Raised (start host (.plain overrides' context)) :=
      ⟨rfl, .plain hoverrides context, .nil, .nil⟩
    exact hraised.output_sublist hmoves

/-- A timer of a child, and a root that is raised from the debug level to the silent one. -/
theorem filtering_agrees_silenced_root :
    let talkative : Overrides := { Overrides.none with level := some Level.debug.value }
    let silenced : Overrides := { Overrides.none with level := some Level.silent.value }
    let first := start ⟨"host", 1, 0, [], 0, 0⟩ (.plain talkative [])
    let later : List Move :=
      [.step (.child 0 []), .step (.startTimer 1 "parse"), .step (.advance 5),
        .step (.write 1 .warn "slow" .absent)]
    let session := first.after (.make talkative [] :: later)
    session.Filters 1 .error (session.step (.write 1 .error "failed" .absent)).2.1 ∧
      (session.step (.stopTimer 0)).1 = .number (0 + 5 - 0) ∧
      session.Filters 1 .debug (session.step (.stopTimer 0)).2.1 ∧
      (session.play (.step (.levelName 1))).2.1 = [] ∧
      session.asks 0 (.number Level.warn.value) = .flag true ∧
      session.asks 1 (.word "Warn") = session.asks 0 (.word "Warn") ∧
      (first.output (.make silenced [] :: later)).Sublist
        (first.output (.make talkative [] :: later)) := by
  intro talkative silenced first later session
  obtain ⟨hcalls, htimers, hquiet, hroots, hchildren, hraised⟩ :=
    filtering_agrees ⟨"host", 1, 0, [], 0, 0⟩ talkative [] (.make talkative [] :: later)
  have hlevel : talkative.level.getD Level.info.value = Level.debug.value := Option.getD_some
  have hless : (talkative.level.getD Level.info.value).lt Level.silent.value = true := by
    rw [hlevel]
    exact Binary64.lt_ofNat (by decide) (by decide)
  have hbegets : first.Begets (.make talkative [] :: later) 0 1 :=
    @Begets.child first _ [.make talkative []] later.tail 0 [] rfl (by decide)
  have hstarts : first.Starts (.make talkative [] :: later) 1 0 0 :=
    @Starts.timer first _ [.make talkative [], .step (.child 0 [])] later.tail.tail 1 "parse" rfl
      (by decide)
  obtain ⟨helapsed, hfilters⟩ := htimers 1 0 0 hstarts
  refine ⟨hcalls 1 (by decide) (.write .error "failed" .absent), helapsed, hfilters, ?_, ?_, ?_,
    ?_⟩
  · refine hquiet _ ?_
    intro h
    cases h
  · have hmakes := @Makes.root first (.make talkative [] :: later) [] later talkative [] rfl
    have hle : Level.debug.value.le Level.warn.value = true :=
      Binary64.le_ofNat (by decide) (by decide) (by decide)
    rw [hroots 0 _ hmakes, Binary64.eq_eq_false_of_lt hless, hlevel, hle]
    rfl
  · exact hchildren 0 1 (.single hbegets) _
  · refine hraised talkative _ .same (.cons (.make (.level hless) []) ?_)
    exact .cons (.step _) (.cons (.step _) (.cons (.step _) (.cons (.step _) .nil)))

end Session
end Logger
end Worksheet
