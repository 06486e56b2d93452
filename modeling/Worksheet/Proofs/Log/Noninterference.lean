/-
What a log shows does not depend on secrets.

Two sessions that differ only in what is held under sensitive keys (of contexts, of metadata and of
facts that are reported) answer alike and write the same lines, step by step
(`Session.Alike.run_eq`).  A step keeps two sessions alike, and whatever a logger makes of a record
is taken without its secrets: that is the invariant, `Session.Alike`, and each of its parts is about
loggers with the same configuration, which takes secrets out.
-/
import Worksheet.Log.Session
import Worksheet.Proofs.Log.Alike
import Mathlib.Data.List.Forall2

namespace Worksheet
namespace Logger

open Redaction

/-! ## Loggers -/

/-- Loggers that take secrets out and differ in those of their contexts only. -/
structure Alike (logger logger' : Logger) : Prop where
  config_eq : logger.config = logger'.config
  context : AlikeFields logger.context logger'.context
  started_eq : logger.started = logger'.started
  sanitizes : logger.config.sanitize = true

variable {logger logger' : Logger} {value value' : Value} {fields fields' : Record}

theorem Alike.shown_eq (h : logger.Alike logger') (hvalue : Redaction.Alike value value') :
    logger.shown value = logger'.shown value' := by
  have hsanitizes : logger'.config.sanitize = true := h.config_eq ▸ h.sanitizes
  rw [shown, shown, if_pos h.sanitizes, if_pos hsanitizes, hvalue.alikeFields.redactFields_eq]

theorem Alike.shownContext_eq (h : logger.Alike logger') :
    logger.shownContext = logger'.shownContext := by
  rw [shownContext, shownContext, h.shown_eq (.record h.context), h.config_eq,
    h.context.isEmpty_eq]

theorem Alike.shownMetadata_eq (h : logger.Alike logger') (hvalue : Redaction.Alike value value') :
    logger.shownMetadata value = logger'.shownMetadata value' := by
  rw [shownMetadata, shownMetadata, h.shown_eq hvalue, hvalue.isPresent_eq]

theorem Alike.performance_eq (h : logger.Alike logger') (host : Host) :
    logger.performance host = logger'.performance host := by
  rw [performance, performance, h.config_eq, h.started_eq]

theorem Alike.entry_eq (h : logger.Alike logger') (host : Host) (level : Level)
    (message : String) (hvalue : Redaction.Alike value value') (failure : Option Failure) :
    logger.entry host level message value failure =
      logger'.entry host level message value' failure := by
  rw [entry, entry, h.shownContext_eq, h.shownMetadata_eq hvalue, h.performance_eq, h.config_eq]

theorem Alike.write_eq (h : logger.Alike logger') (host : Host) (level : Level)
    (message : String) (hvalue : Redaction.Alike value value') (failure : Option Failure) :
    logger.write host level message value failure =
      logger'.write host level message value' failure := by
  rw [write, write, writes, writes, textOf, textOf, h.entry_eq host level message hvalue,
    h.config_eq]

namespace Subject

/-- The same error, or facts that differ in their secrets only. -/
inductive Alike : Subject → Subject → Prop
  | failure (failure : Failure) : Alike (.failure failure) (.failure failure)
  | facts {facts facts' : Value} (h : Redaction.Alike facts facts') :
      Alike (.facts facts) (.facts facts')

theorem Alike.refl (subject : Subject) : subject.Alike subject := by
  cases subject with
  | failure failure => exact .failure failure
  | facts facts => exact .facts (.same facts)

end Subject

theorem Alike.report_eq (h : logger.Alike logger') (host : Host) (level : Level)
    (message : String) {subject subject' : Subject} (hsubject : subject.Alike subject')
    (hvalue : Redaction.Alike value value') :
    logger.report host level message subject value =
      logger'.report host level message subject' value' := by
  cases hsubject with
  | failure failure => exact h.write_eq host level message hvalue _
  | facts hfacts =>
    have hmerged := (AlikeFields.nil.merge hfacts.alikeFields).merge hvalue.alikeFields
    exact h.write_eq host level message (.record hmerged) none

theorem Alike.child (h : logger.Alike logger') (host : Host) (hfields : AlikeFields fields fields') :
    (logger.child host fields).Alike (logger'.child host fields') where
  config_eq := h.config_eq
  context := h.context.merge hfields
  started_eq := rfl
  sanitizes := h.sanitizes

end Logger

/-- Timers of loggers that are alike. -/
structure Timer.Alike (timer timer' : Timer) : Prop where
  logger : timer.logger.Alike timer'.logger
  label_eq : timer.label = timer'.label
  started_eq : timer.started = timer'.started

theorem Timer.Alike.stop_eq {timer timer' : Timer} (h : timer.Alike timer') (host : Host) :
    timer.stop host = timer'.stop host := by
  rw [Timer.stop, Timer.stop, h.label_eq, h.started_eq,
    h.logger.write_eq host .debug _ (.same _) none]

namespace Logger

open Redaction

/-! ## Steps -/

/-- The same way to make a logger, with contexts that differ in their secrets only. -/
inductive Recipe.Alike : Recipe → Recipe → Prop
  | plain (overrides : Overrides) {context context' : Record} (h : AlikeFields context context') :
      Recipe.Alike (.plain overrides context) (.plain overrides context')
  | environment (overrides : Overrides) :
      Recipe.Alike (.environment overrides) (.environment overrides)

/-- The same step, with values that differ in their secrets only. -/
inductive Step.Alike : Step → Step → Prop
  | same (step : Step) : Step.Alike step step
  | write (logger : Nat) (level : Level) (message : String) {metadata metadata' : Value}
      (h : Redaction.Alike metadata metadata') :
      Step.Alike (.write logger level message metadata) (.write logger level message metadata')
  | report (logger : Nat) (level : Level) (message : String) {subject subject' : Subject}
      {metadata metadata' : Value} (hsubject : subject.Alike subject')
      (h : Redaction.Alike metadata metadata') :
      Step.Alike (.report logger level message subject metadata)
        (.report logger level message subject' metadata')
  | child (logger : Nat) {context context' : Record} (h : AlikeFields context context') :
      Step.Alike (.child logger context) (.child logger context')

namespace Session

/-- Sessions on one host whose loggers take secrets out and differ in secrets only. -/
structure Alike (session session' : Session) : Prop where
  host_eq : session.host = session'.host
  recipe : session.recipe.Alike session'.recipe
  loggers : List.Forall₂ Logger.Alike session.loggers session'.loggers
  timers : List.Forall₂ Timer.Alike session.timers session'.timers

/-- The same answer and the same lines, and sessions that are alike afterwards. -/
structure AlikeAfter (response response' : Answer × List Line × Session) : Prop where
  answer_eq : response.1 = response'.1
  lines_eq : response.2.1 = response'.2.1
  after : response.2.2.Alike response'.2.2

/-- The root logger that a step makes, if it makes one. -/
def made (session : Session) : Step → List Logger
  | .create => [(session.recipe.make session.host).1]
  | _ => []

/-- The root loggers that a run makes. -/
def roots (session : Session) : List Step → List Logger
  | [] => []
  | step :: steps => session.made step ++ roots (session.step step).2.2 steps

variable {session session' : Session}

theorem getElem?_cases {α : Type} {related : α → α → Prop} {items items' : List α}
    (h : List.Forall₂ related items items') (n : Nat) :
    items[n]? = none ∧ items'[n]? = none ∨
      ∃ item item', items[n]? = some item ∧ items'[n]? = some item' ∧ related item item' := by
  induction h generalizing n with
  | nil => exact .inl ⟨rfl, rfl⟩
  | cons hfirst _ ih =>
    cases n with
    | zero => exact .inr ⟨_, _, rfl, rfl, hfirst⟩
    | succ n => exact ih n

/-- What two sessions do with the loggers of one number is related, if it is for every two loggers
that are related and where no logger has the number. -/
theorem on_related {related : Logger → Logger → Prop}
    {agree : Answer × List Line × Session → Answer × List Line × Session → Prop}
    (h : List.Forall₂ related session.loggers session'.loggers)
    (hnone : agree (.done, [], session) (.done, [], session')) (number : Nat)
    {act act' : Logger → Answer × List Line × Session}
    (hact : ∀ logger logger', related logger logger' → agree (act logger) (act' logger')) :
    agree (session.on number act) (session'.on number act') := by
  unfold Session.on
  obtain ⟨hleft, hright⟩ | ⟨logger, logger', hsome, hsome', hrelated⟩ := getElem?_cases h number
  · rw [hleft, hright]
    exact hnone
  · rw [hsome, hsome']
    exact hact logger logger' hrelated

theorem Alike.on (h : session.Alike session') (number : Nat)
    {act act' : Logger → Answer × List Line × Session}
    (hact : ∀ logger logger', logger.Alike logger' → AlikeAfter (act logger) (act' logger')) :
    AlikeAfter (session.on number act) (session'.on number act') :=
  on_related h.loggers ⟨rfl, rfl, h⟩ number hact

theorem Alike.add (h : session.Alike session') {logger logger' : Logger}
    (hlogger : logger.Alike logger') :
    (session.add logger).1 = (session'.add logger').1 ∧
      (session.add logger).2.Alike (session'.add logger').2 := by
  refine ⟨?_, h.host_eq, h.recipe, ?_, h.timers⟩
  · show Answer.number (.ofNat session.loggers.length) = .number (.ofNat session'.loggers.length)
    rw [h.loggers.length_eq]
  · exact List.rel_append h.loggers (.cons hlogger .nil)

/-- A new root logger has the configuration of the other and, up to secrets, its context. -/
theorem Alike.make (h : session.Alike session')
    (hsanitizes : (session.recipe.make session.host).1.config.sanitize = true) :
    (session.recipe.make session.host).1.Alike (session'.recipe.make session'.host).1 ∧
      (session.recipe.make session.host).2 = (session'.recipe.make session'.host).2 := by
  have hrecipe := h.recipe
  rw [← h.host_eq]
  generalize session.recipe = recipe at hsanitizes hrecipe
  generalize session'.recipe = recipe' at hrecipe
  cases hrecipe with
  | plain overrides hcontext => exact ⟨⟨rfl, hcontext, rfl, hsanitizes⟩, rfl⟩
  | environment overrides => exact ⟨⟨rfl, .refl _, rfl, hsanitizes⟩, rfl⟩

/-! ### Steps that hold values -/

section

variable (number : Nat) (level : Level) (message : String) {metadata metadata' : Value}

theorem Alike.step_write (h : session.Alike session')
    (hvalue : Redaction.Alike metadata metadata') :
    AlikeAfter (session.step (.write number level message metadata))
      (session'.step (.write number level message metadata')) := by
  apply h.on
  intro logger logger' halike
  refine ⟨rfl, ?_, h⟩
  show logger.write session.host level message metadata none =
    logger'.write session'.host level message metadata' none
  rw [← h.host_eq, halike.write_eq session.host level message hvalue none]

theorem Alike.step_report (h : session.Alike session') {subject subject' : Subject}
    (hsubject : subject.Alike subject') (hvalue : Redaction.Alike metadata metadata') :
    AlikeAfter (session.step (.report number level message subject metadata))
      (session'.step (.report number level message subject' metadata')) := by
  apply h.on
  intro logger logger' halike
  refine ⟨rfl, ?_, h⟩
  show logger.report session.host level message subject metadata =
    logger'.report session'.host level message subject' metadata'
  rw [← h.host_eq, halike.report_eq session.host level message hsubject hvalue]

theorem Alike.step_child (h : session.Alike session') {context context' : Record}
    (hcontext : AlikeFields context context') :
    AlikeAfter (session.step (.child number context)) (session'.step (.child number context')) := by
  apply h.on
  intro logger logger' halike
  have hchild : (logger.child session.host context).Alike
      (logger'.child session'.host context') := by
    rw [← h.host_eq]
    exact halike.child session.host hcontext
  exact ⟨(h.add hchild).1, rfl, (h.add hchild).2⟩

end

/-! ### The other steps -/

theorem Alike.step_create (h : session.Alike session')
    (hsanitizes : (session.recipe.make session.host).1.config.sanitize = true) :
    AlikeAfter (session.step .create) (session'.step .create) := by
  obtain ⟨hmade, hlines⟩ := h.make hsanitizes
  exact ⟨(h.add hmade).1, hlines, (h.add hmade).2⟩

theorem Alike.step_startTimer (h : session.Alike session') (number : Nat) (label : String) :
    AlikeAfter (session.step (.startTimer number label))
      (session'.step (.startTimer number label)) := by
  apply h.on
  intro logger logger' halike
  have htimer : (Timer.start logger session.host label).Alike
      (.start logger' session'.host label) := by
    rw [← h.host_eq]
    exact ⟨halike, rfl, rfl⟩
  refine ⟨?_, rfl, h.host_eq, h.recipe, h.loggers, List.rel_append h.timers (.cons htimer .nil)⟩
  show Answer.number (.ofNat session.timers.length) = .number (.ofNat session'.timers.length)
  rw [h.timers.length_eq]

theorem Alike.step_stopTimer (h : session.Alike session') (number : Nat) :
    AlikeAfter (session.step (.stopTimer number)) (session'.step (.stopTimer number)) := by
  simp only [Session.step]
  obtain ⟨hnone, hnone'⟩ | ⟨timer, timer', hsome, hsome', htimer⟩ :=
    getElem?_cases h.timers number
  · rw [hnone, hnone']
    exact ⟨rfl, rfl, h⟩
  · rw [hsome, hsome', ← h.host_eq]
    have hstop := htimer.stop_eq session.host
    refine ⟨?_, ?_, h⟩
    · show Answer.number (timer.stop session.host).1 = .number (timer'.stop session.host).1
      rw [hstop]
    · show (timer.stop session.host).2 = (timer'.stop session.host).2
      rw [hstop]

/-- A question about a logger is answered from its configuration. -/
theorem Alike.on_config (h : session.Alike session') (number : Nat) (answer : Config → Answer) :
    AlikeAfter (session.on number fun logger => (answer logger.config, [], session))
      (session'.on number fun logger => (answer logger.config, [], session')) := by
  apply h.on
  intro logger logger' halike
  exact ⟨congrArg answer halike.config_eq, rfl, h⟩

theorem Alike.withHost (h : session.Alike session') (change : Host → Host) :
    AlikeAfter (.done, [], { session with host := change session.host })
      (.done, [], { session' with host := change session'.host }) :=
  ⟨rfl, rfl, congrArg change h.host_eq, h.recipe, h.loggers, h.timers⟩

/-- The step lemma: what alike steps show is the same, and they keep the sessions alike. -/
theorem Alike.step (h : session.Alike session') {step step' : Step} (hstep : step.Alike step')
    (hsanitizes : ∀ logger ∈ session.made step, logger.config.sanitize = true) :
    AlikeAfter (session.step step) (session'.step step') := by
  cases hstep with
  | write number level message hvalue => exact h.step_write number level message hvalue
  | report number level message hsubject hvalue =>
    exact h.step_report number level message hsubject hvalue
  | child number hcontext => exact h.step_child number hcontext
  | same =>
    cases step with
    | create => exact h.step_create (hsanitizes _ (List.mem_singleton_self _))
    | write number level message metadata =>
      exact h.step_write number level message (.same metadata)
    | report number level message subject metadata =>
      exact h.step_report number level message (.refl subject) (.same metadata)
    | child number context => exact h.step_child number (.refl context)
    | startTimer number label => exact h.step_startTimer number label
    | stopTimer number => exact h.step_stopTimer number
    | levelName number => exact h.on_config number fun config => .text (Level.nameOf config.level)
    | writes number query =>
      cases query with
      | number x => exact h.on_config number fun config => .flag ((⟨config, [], 0⟩ : Logger).writes x)
      | word s => exact h.on_config number fun config => .flag ((⟨config, [], 0⟩ : Logger).writesWord s)
    | advance ms => exact h.withHost fun host => host.advance ms
    | setVariable name value =>
      cases value with
      | none => exact h.withHost fun host => { host with environment := host.environment.unset name }
      | some value =>
        exact h.withHost fun host => { host with environment := host.environment.set name value }

/-! ## Runs -/

theorem recipe_on (session : Session) (number : Nat)
    {act : Logger → Answer × List Line × Session}
    (h : ∀ logger, (act logger).2.2.recipe = session.recipe) :
    (session.on number act).2.2.recipe = session.recipe := by
  unfold Session.on
  split
  · exact h _
  · rfl

/-- A session makes all its root loggers in one way. -/
theorem recipe_step (session : Session) (step : Step) :
    (session.step step).2.2.recipe = session.recipe := by
  cases step with
  | create => rfl
  | stopTimer number =>
    simp only [Session.step]
    split <;> rfl
  | advance ms => rfl
  | setVariable name value => rfl
  | writes number query =>
    cases query <;> exact session.recipe_on number fun _ => rfl
  | _ => exact session.recipe_on _ fun _ => rfl

/-- Loggers that are made without the environment take secrets out unless they are told not to. -/
theorem sanitize_of_mem_roots {overrides : Overrides} {context : Record}
    (h : session.recipe = .plain overrides context) {steps : List Step} {logger : Logger}
    (hroot : logger ∈ session.roots steps) :
    logger.config.sanitize = overrides.sanitize.getD true := by
  induction steps generalizing session with
  | nil => exact absurd hroot List.not_mem_nil
  | cons step steps ih =>
    rcases List.mem_append.mp hroot with hmade | hlater
    · cases step with
      | create =>
        rw [made, h, List.mem_singleton] at hmade
        rw [hmade]
        rfl
      | _ => exact absurd hmade List.not_mem_nil
    · exact ih ((session.recipe_step step).trans h) hlater

theorem run_cons (session : Session) (step : Step) (steps : List Step) :
    session.run (step :: steps) = ((session.step step).1, (session.step step).2.1) ::
      (session.step step).2.2.run steps := rfl

/-- The run lemma: alike sessions show the same under alike steps. -/
theorem Alike.run_eq (h : session.Alike session') {steps steps' : List Step}
    (hsteps : List.Forall₂ Step.Alike steps steps')
    (hsanitizes : ∀ logger ∈ session.roots steps, logger.config.sanitize = true) :
    session.run steps = session'.run steps' := by
  induction hsteps generalizing session session' with
  | nil => rfl
  | cons hstep _ ih =>
    obtain ⟨hmade, hlater⟩ := List.forall_mem_append.mp hsanitizes
    obtain ⟨hanswer, hlines, hafter⟩ := h.step hstep hmade
    rw [run_cons, run_cons, hanswer, hlines, ih hafter hlater]

/-- Two runs that differ only in what is held under sensitive keys show the same: the same answers
and the same lines on the same streams.  The root loggers have to be set to take secrets out. -/
theorem run_eq_of_alike (host : Host) (recipe recipe' : Recipe) (steps steps' : List Step)
    (hrecipe : recipe.Alike recipe') (hsteps : List.Forall₂ Step.Alike steps steps')
    (hsanitizes : ∀ logger ∈ (start host recipe).roots steps, logger.config.sanitize = true) :
    (start host recipe).run steps = (start host recipe').run steps' := by
  have hstart : (start host recipe).Alike (start host recipe') := ⟨rfl, hrecipe, .nil, .nil⟩
  exact hstart.run_eq hsteps hsanitizes

/-- Secrets of the root, of a child, of metadata and of reported facts, some of them of different
kinds in the two runs. -/
theorem run_eq_of_alike_two_secrets :
    let host : Host := ⟨"host", 1, 0, [], 0, 0⟩
    (start host (.plain .none [("user", .string "ann"), ("authToken", .list [.list [.null]])])).run
        [.create, .child 0 [("jobs", .list [.record [("API_KEY", .string "a")]])],
          .report 1 .error "refused" (.facts (.record [("old Password", .string "p")]))
            (.record [("Cookie", .number 1), ("tries", .number 2)])] =
      (start host (.plain .none [("user", .string "ann"), ("authToken", .absent)])).run
        [.create, .child 0 [("jobs", .list [.record [("API_KEY", .record [])]])],
          .report 1 .error "refused" (.facts (.record [("old Password", .boolean false)]))
            (.record [("Cookie", .string "c"), ("tries", .number 2)])] := by
  intro host
  have htoken : Sensitive "authToken" := isSensitive_iff.mp (by decide +kernel)
  have hkey : Sensitive "API_KEY" := isSensitive_iff.mp (by decide +kernel)
  have hpassword : Sensitive "old Password" := isSensitive_iff.mp (by decide +kernel)
  have hcookie : Sensitive "Cookie" := isSensitive_iff.mp (by decide +kernel)
  apply run_eq_of_alike
  · exact .plain .none (.kept (.same _) (.secret htoken _ _ .nil))
  · refine .cons (.same .create) (.cons (.child 0 ?_) (.cons (.report 1 .error "refused" ?_ ?_) .nil))
    · exact .kept (.list (.cons (.record (.secret hkey _ _ .nil)) .nil)) .nil
    · exact .facts (.record (.secret hpassword _ _ .nil))
    · exact .record (.secret hcookie _ _ (.kept (.same _) .nil))
  · intro logger hroot
    exact sanitize_of_mem_roots rfl hroot

end Session
end Logger
end Worksheet
