/-
What a cache holds after any run.

An object is held exactly if a call has handed it out and nothing has been reset since
(`HandedSince`).  This is read off the steps and their answers, and with the environment that
the steps leave it is all that a cache goes by: `invariant_after` says so of every run, one
step at a time, and `answerAfter_exact` is the answer of every call.

Objects are told apart by their serial numbers, so that an object is the one handed out
before needs a second part of the invariant: all serial numbers in use are below `made`, and
what is held is what was handed out last.
-/
import Worksheet.Settings.Cache
import Mathlib.Data.List.Induction

namespace Worksheet
namespace Settings
namespace Cache

/-! ## Runs -/

/-- What a step makes of the environment. -/
def Step.change (env : Environment) : Step → Environment
  | .set name value => env.set name value
  | .unset name => env.unset name
  | .reset => env
  | .get => env

def environmentAfter (env : Environment) (steps : List Step) : Environment :=
  steps.foldl Step.change env

theorem environmentAfter_append_singleton (env : Environment) (steps : List Step)
    (step : Step) :
    environmentAfter env (steps ++ [step]) = step.change (environmentAfter env steps) :=
  List.foldl_append

def after (cache : Cache) : List Step → Cache
  | [] => cache
  | step :: steps => after (cache.step step).2 steps

theorem after_append (cache : Cache) (earlier later : List Step) :
    cache.after (earlier ++ later) = (cache.after earlier).after later := by
  induction earlier generalizing cache with
  | nil => rfl
  | cons first rest ih => exact ih (cache.step first).2

theorem getElem?_run (cache : Cache) (earlier : List Step) (step : Step) (later : List Step) :
    (cache.run (earlier ++ step :: later))[earlier.length]? =
      some ((cache.after earlier).step step).1 := by
  induction earlier generalizing cache with
  | nil => rfl
  | cons first rest ih =>
    rw [List.cons_append, run, List.length_cons, List.getElem?_cons_succ]
    exact ih (cache.step first).2

/-! ## Calls -/

/-- What a call answers that comes behind the steps `earlier`, in a run that goes on with the
steps `later`. -/
def answerAfter (env : Environment) (earlier later : List Step) : Option Answer :=
  ((start env).run (earlier ++ .get :: later))[earlier.length]?

/-- Some call among the steps has handed out the object. -/
def HandedOut (env : Environment) (steps : List Step) (reading : Reading) : Prop :=
  ∃ before since, steps = before ++ .get :: since ∧
    ∃ same, answerAfter env before since = some (.handed reading same)

/-- Some call among the steps has handed out the object, and no reset has come since. -/
def HandedSince (env : Environment) (steps : List Step) (reading : Reading) : Prop :=
  ∃ before since, steps = before ++ .get :: since ∧
    .reset ∉ since ∧ ∃ same, answerAfter env before since = some (.handed reading same)

theorem answerAfter_eq (env : Environment) (earlier later : List Step) :
    answerAfter env earlier later = some ((start env).after earlier).get.1 :=
  getElem?_run (start env) earlier .get later

/-- The three outcomes of a call. -/
theorem get_cases (cache : Cache) :
    (∃ reading, cache.held = some reading ∧ cache.get = cache.hand reading) ∨
    (∃ fault, cache.held = none ∧ ofEnvironment cache.environment = .error fault ∧
      cache.get = (.failed fault, cache)) ∨
    (∃ settings, cache.held = none ∧ ofEnvironment cache.environment = .ok settings ∧
      cache.get = { cache with made := cache.made + 1 }.hand ⟨cache.made, settings⟩) := by
  unfold get
  cases hheld : cache.held with
  | some reading => exact .inl ⟨reading, rfl, rfl⟩
  | none =>
    cases hread : ofEnvironment cache.environment with
    | error fault => exact .inr (.inl ⟨fault, rfl, rfl, rfl⟩)
    | ok settings => exact .inr (.inr ⟨settings, rfl, rfl, rfl⟩)

variable {env : Environment} {steps : List Step} {cache : Cache} {reading : Reading}

/-- A call among one step more is that step or one of those before it. -/
theorem exists_call_append_singleton {p : List Step → List Step → Prop} (step : Step) :
    (∃ before since, steps ++ [step] = before ++ .get :: since ∧ p before since) ↔
      (step = .get ∧ p steps []) ∨
        ∃ before since, steps = before ++ .get :: since ∧ p before (since ++ [step]) := by
  constructor
  · rintro ⟨before, since, hsteps, hp⟩
    rcases List.eq_nil_or_concat since with rfl | ⟨since, last, rfl⟩
    · obtain ⟨rfl, hstep⟩ := List.append_inj' hsteps rfl
      exact .inl ⟨List.singleton_inj.mp hstep, hp⟩
    · rw [List.concat_eq_append] at hsteps hp
      rw [← List.cons_append, ← List.append_assoc] at hsteps
      obtain ⟨hinit, hstep⟩ := List.append_inj' hsteps rfl
      obtain rfl := List.singleton_inj.mp hstep
      exact .inr ⟨before, since, hinit, hp⟩
  · rintro (⟨rfl, hp⟩ | ⟨before, since, rfl, hp⟩)
    · exact ⟨steps, [], rfl, hp⟩
    · exact ⟨before, since ++ [step], List.append_assoc .., hp⟩

theorem handedOut_append_singleton (step : Step) :
    HandedOut env (steps ++ [step]) reading ↔
      (step = .get ∧ ∃ same, ((start env).after steps).get.1 = .handed reading same) ∨
        HandedOut env steps reading := by
  simp only [HandedOut, answerAfter_eq, Option.some.injEq]
  exact exists_call_append_singleton step

/-- An object is handed out and not reset after one more step if that step is a call and
hands it out, or if it was before and the step is no reset. -/
theorem handedSince_append_singleton (step : Step) :
    HandedSince env (steps ++ [step]) reading ↔
      (step = .get ∧ ∃ same, ((start env).after steps).get.1 = .handed reading same) ∨
        (step ≠ .reset ∧ HandedSince env steps reading) := by
  simp only [HandedSince, answerAfter_eq, Option.some.injEq]
  rw [exists_call_append_singleton step]
  simp only [List.not_mem_nil, not_false_eq_true, true_and, List.mem_append,
    List.mem_singleton, not_or]
  constructor
  · rintro (h | ⟨before, since, hsteps, ⟨hreset, hstep⟩, hanswer⟩)
    · exact .inl h
    · exact .inr ⟨Ne.symm hstep, before, since, hsteps, hreset, hanswer⟩
  · rintro (h | ⟨hstep, before, since, hsteps, hreset, hanswer⟩)
    · exact .inl h
    · exact .inr ⟨before, since, hsteps, ⟨hreset, Ne.symm hstep⟩, hanswer⟩

/-- A step that is no call hands nothing out. -/
theorem handedOut_of_ne_get {step : Step} (hstep : step ≠ .get)
    (h : HandedOut env (steps ++ [step]) reading) : HandedOut env steps reading := by
  rcases (handedOut_append_singleton step).mp h with ⟨hget, _⟩ | h
  · exact absurd hget hstep
  · exact h

theorem handedSince_of_ne {step : Step} (hget : step ≠ .get) (hreset : step ≠ .reset) :
    HandedSince env (steps ++ [step]) reading ↔ HandedSince env steps reading := by
  rw [handedSince_append_singleton step]
  constructor
  · rintro (⟨h, _⟩ | ⟨_, h⟩)
    · exact absurd h hget
    · exact h
  · intro h
    exact .inr ⟨hreset, h⟩

/-! ## The invariant -/

/-- What the steps taken since the start say about a cache. -/
structure Invariant (env : Environment) (steps : List Step) (cache : Cache) : Prop where
  environment_eq : cache.environment = environmentAfter env steps
  held_iff : ∀ reading, cache.held = some reading ↔ HandedSince env steps reading
  last_of_held : ∀ reading, cache.held = some reading → cache.last = some reading
  last_lt : ∀ reading, cache.last = some reading → reading.serial < cache.made
  handed_lt : ∀ reading, HandedOut env steps reading → reading.serial < cache.made

theorem invariant_start (env : Environment) : Invariant env [] (start env) where
  environment_eq := rfl
  held_iff reading := by
    constructor
    · intro h
      cases h
    · rintro ⟨before, since, h, _⟩
      cases (List.append_eq_nil_iff.mp h.symm).2
  last_of_held reading h := by cases h
  last_lt reading h := by cases h
  handed_lt := by
    rintro reading ⟨before, since, h, _⟩
    cases (List.append_eq_nil_iff.mp h.symm).2

/-- A step that changes the environment changes nothing else. -/
theorem invariant_change {step : Step} (hget : step ≠ .get) (hreset : step ≠ .reset)
    (h : Invariant env steps cache) :
    Invariant env (steps ++ [step])
      { cache with environment := step.change cache.environment } where
  environment_eq := by
    rw [environmentAfter_append_singleton, ← h.environment_eq]
  held_iff reading := by
    rw [handedSince_of_ne hget hreset]
    exact h.held_iff reading
  last_of_held := h.last_of_held
  last_lt := h.last_lt
  handed_lt reading hout := h.handed_lt reading (handedOut_of_ne_get hget hout)

/-- After a reset nothing is held, and nothing has been handed out since. -/
theorem invariant_reset (h : Invariant env steps cache) :
    Invariant env (steps ++ [.reset]) { cache with held := none } where
  environment_eq := by
    rw [environmentAfter_append_singleton]
    exact h.environment_eq
  held_iff reading := by
    rw [handedSince_append_singleton]
    constructor
    · intro hheld
      cases hheld
    · rintro (⟨hget, _⟩ | ⟨hreset, _⟩)
      · cases hget
      · exact absurd rfl hreset
  last_of_held reading hheld := by cases hheld
  last_lt := h.last_lt
  handed_lt reading hout := h.handed_lt reading (handedOut_of_ne_get (by decide) hout)

/-- A held object is handed out as the one handed out last, and the cache stays as it is. -/
theorem Invariant.get_of_held (h : Invariant env steps cache)
    (hheld : cache.held = some reading) : cache.get = (.handed reading true, cache) := by
  have hlast : cache.last = some reading := h.last_of_held reading hheld
  obtain ⟨environment, held, made, last⟩ := cache
  obtain rfl : held = some reading := hheld
  obtain rfl : last = some reading := hlast
  simp [get, hand]

/-- A new object is not the one handed out last. -/
theorem Invariant.hand_new (h : Invariant env steps cache) (settings : Settings) :
    ({ cache with made := cache.made + 1 }.hand ⟨cache.made, settings⟩).1 =
      .handed ⟨cache.made, settings⟩ false := by
  have hnew : cache.last.map Reading.serial ≠ some cache.made := by
    intro hsame
    obtain ⟨reading, hlast, hserial⟩ := Option.map_eq_some_iff.mp hsame
    exact absurd (h.last_lt reading hlast) (by omega)
  rw [hand, decide_eq_false hnew]

/-- A call that leaves the cache as it is: all that it may hand out is what is held. -/
theorem invariant_get_same (hcache : (start env).after steps = cache)
    (h : Invariant env steps cache)
    (hheld : ∀ reading same, cache.get.1 = .handed reading same → cache.held = some reading) :
    Invariant env (steps ++ [.get]) cache where
  environment_eq := by
    rw [environmentAfter_append_singleton]
    exact h.environment_eq
  held_iff reading := by
    rw [handedSince_append_singleton, hcache, ← h.held_iff]
    constructor
    · intro hsome
      exact .inr ⟨by decide, hsome⟩
    · rintro (⟨_, same, hanswer⟩ | ⟨_, hsome⟩)
      · exact hheld reading same hanswer
      · exact hsome
  last_of_held := h.last_of_held
  last_lt := h.last_lt
  handed_lt reading hout := by
    rw [handedOut_append_singleton, hcache] at hout
    rcases hout with ⟨_, same, hanswer⟩ | hout
    · exact h.last_lt reading (h.last_of_held reading (hheld reading same hanswer))
    · exact h.handed_lt reading hout

/-- A call that makes a new object holds it, and hands out nothing else. -/
theorem invariant_get_new (hcache : (start env).after steps = cache)
    (h : Invariant env steps cache) (hempty : cache.held = none) {settings : Settings}
    (hget : cache.get = { cache with made := cache.made + 1 }.hand ⟨cache.made, settings⟩) :
    Invariant env (steps ++ [.get])
      ({ cache with made := cache.made + 1 }.hand ⟨cache.made, settings⟩).2 where
  environment_eq := by
    rw [environmentAfter_append_singleton]
    exact h.environment_eq
  held_iff reading := by
    rw [handedSince_append_singleton, hcache, ← h.held_iff, hempty, hget, h.hand_new]
    show some (Reading.mk cache.made settings) = some reading ↔ _
    constructor
    · rintro ⟨⟩
      exact .inl ⟨rfl, false, rfl⟩
    · rintro (⟨_, same, hanswer⟩ | ⟨_, hsome⟩)
      · cases hanswer
        rfl
      · cases hsome
  last_of_held reading hsome := hsome
  last_lt reading hsome := by
    cases hsome
    exact Nat.lt_succ_self cache.made
  handed_lt reading hout := by
    show reading.serial < cache.made + 1
    rw [handedOut_append_singleton, hcache, hget, h.hand_new] at hout
    rcases hout with ⟨_, same, hanswer⟩ | hout
    · cases hanswer
      exact Nat.lt_succ_self cache.made
    · exact Nat.lt_succ_of_lt (h.handed_lt reading hout)

theorem invariant_get (hcache : (start env).after steps = cache)
    (h : Invariant env steps cache) : Invariant env (steps ++ [.get]) cache.get.2 := by
  rcases get_cases cache with
    ⟨reading, hheld, _⟩ | ⟨fault, _, _, hget⟩ | ⟨settings, hempty, _, hget⟩
  · have hget := h.get_of_held hheld
    rw [hget]
    refine invariant_get_same hcache h (fun other same hanswer => ?_)
    rw [hget] at hanswer
    cases hanswer
    exact hheld
  · rw [hget]
    refine invariant_get_same hcache h (fun other same hanswer => ?_)
    rw [hget] at hanswer
    cases hanswer
  · rw [hget]
    exact invariant_get_new hcache h hempty hget

theorem invariant_step (hcache : (start env).after steps = cache)
    (h : Invariant env steps cache) (step : Step) :
    Invariant env (steps ++ [step]) (cache.step step).2 := by
  cases step with
  | set name value => exact invariant_change (by simp) (by simp) h
  | unset name => exact invariant_change (by simp) (by simp) h
  | reset => exact invariant_reset h
  | get => exact invariant_get hcache h

theorem invariant_after (env : Environment) (steps : List Step) :
    Invariant env steps ((start env).after steps) := by
  induction steps using List.reverseRecOn with
  | nil => exact invariant_start env
  | append_singleton steps step ih =>
    rw [after_append]
    exact invariant_step rfl ih step

/-! ## The answer of every call -/

variable {earlier later : List Step} {settings : Settings} {fault : Invalid}

theorem answerAfter_of_handedSince (h : HandedSince env earlier reading) :
    answerAfter env earlier later = some (.handed reading true) := by
  have hinvariant := invariant_after env earlier
  have hheld := (hinvariant.held_iff reading).mpr h
  rw [answerAfter_eq, hinvariant.get_of_held hheld]

theorem held_eq_none (h : ∀ reading, ¬ HandedSince env steps reading) :
    ((start env).after steps).held = none := by
  apply Option.eq_none_iff_forall_ne_some.mpr
  intro reading hheld
  exact h reading (((invariant_after env steps).held_iff reading).mp hheld)

/-- A call on an empty cache reads the environment of the moment. -/
theorem answerAfter_of_held_eq_none (later : List Step)
    (hempty : ((start env).after earlier).held = none) :
    answerAfter env earlier later =
      match ofEnvironment (environmentAfter env earlier) with
      | .ok settings => some (.handed ⟨((start env).after earlier).made, settings⟩ false)
      | .error fault => some (.failed fault) := by
  have hinvariant := invariant_after env earlier
  rw [answerAfter_eq, ← hinvariant.environment_eq]
  rcases get_cases ((start env).after earlier) with
    ⟨reading, hheld, _⟩ | ⟨fault, _, hread, hget⟩ | ⟨settings, _, hread, hget⟩
  · rw [hempty] at hheld
    cases hheld
  · rw [hget, hread]
  · rw [hget, hread, hinvariant.hand_new]

/-- A call that fails finds the cache empty and leaves it so. -/
theorem held_of_failed (h : answerAfter env earlier later = some (.failed fault)) :
    ((start env).after (earlier ++ [.get])).held = none := by
  rw [answerAfter_eq, Option.some.injEq] at h
  rw [after_append]
  show ((start env).after earlier).get.2.held = none
  rcases get_cases ((start env).after earlier) with
    ⟨reading, _, hget⟩ | ⟨_, hempty, _, hget⟩ | ⟨settings, _, _, hget⟩
  · rw [hget] at h
    cases h
  · rw [hget]
    exact hempty
  · rw [hget] at h
    cases h

/-- Only a call can fill an empty cache. -/
theorem held_after_of_get_not_mem (hempty : cache.held = none) (hget : .get ∉ steps) :
    (cache.after steps).held = none := by
  induction steps generalizing cache with
  | nil => exact hempty
  | cons step rest ih =>
    rw [List.mem_cons, not_or] at hget
    apply ih _ hget.2
    cases step with
    | set name value => exact hempty
    | unset name => exact hempty
    | reset => rfl
    | get => exact absurd rfl hget.1

/-- A call in a valid environment succeeds, whatever is held. -/
theorem answerAfter_of_valid (later : List Step)
    (hvalid : ofEnvironment (environmentAfter env earlier) = .ok settings) :
    ∃ reading same, answerAfter env earlier later = some (.handed reading same) := by
  cases hheld : ((start env).after earlier).held with
  | some reading =>
    have h := ((invariant_after env earlier).held_iff reading).mp hheld
    exact ⟨reading, true, answerAfter_of_handedSince h⟩
  | none =>
    refine ⟨⟨((start env).after earlier).made, settings⟩, false, ?_⟩
    rw [answerAfter_of_held_eq_none later hheld, hvalid]

/-- Every call answers with the object handed out since the last reset, if there is one, and
otherwise with what the environment of the moment gives: a new object, or the fault.  A call
that fails leaves the cache empty, and one that comes later in a repaired environment
succeeds; if it is the next call, with the settings of that environment. -/
theorem answerAfter_exact (env : Environment) (earlier later : List Step) :
    (∀ reading, HandedSince env earlier reading →
      answerAfter env earlier later = some (.handed reading true)) ∧
    ((∀ reading, ¬ HandedSince env earlier reading) →
      match ofEnvironment (environmentAfter env earlier) with
      | .ok settings => ∃ serial,
          (∀ older, HandedOut env earlier older → older.serial ≠ serial) ∧
          answerAfter env earlier later = some (.handed ⟨serial, settings⟩ false)
      | .error fault => answerAfter env earlier later = some (.failed fault)) ∧
    ∀ fault, answerAfter env earlier later = some (.failed fault) →
      ((start env).after (earlier ++ [.get])).held = none ∧
      ∀ between behind settings,
        ofEnvironment (environmentAfter env (earlier ++ .get :: between)) = .ok settings →
          ∃ reading same,
            answerAfter env (earlier ++ .get :: between) behind =
              some (.handed reading same) ∧
            (.get ∉ between → reading.settings = settings) := by
  refine ⟨fun reading h => answerAfter_of_handedSince h, fun h => ?_, fun fault hfailed => ?_⟩
  · have hanswer := answerAfter_of_held_eq_none later (held_eq_none h)
    cases hread : ofEnvironment (environmentAfter env earlier) with
    | error fault =>
      rw [hread] at hanswer
      exact hanswer
    | ok settings =>
      rw [hread] at hanswer
      refine ⟨_, fun older hout => ?_, hanswer⟩
      exact Nat.ne_of_lt ((invariant_after env earlier).handed_lt older hout)
  · have hempty := held_of_failed hfailed
    refine ⟨hempty, fun between behind settings hvalid => ?_⟩
    obtain ⟨reading, same, hanswer⟩ := answerAfter_of_valid behind hvalid
    refine ⟨reading, same, hanswer, fun hget => ?_⟩
    have hnone : ((start env).after (earlier ++ .get :: between)).held = none := by
      rw [List.append_cons, after_append]
      exact held_after_of_get_not_mem hempty hget
    rw [answerAfter_of_held_eq_none behind hnone, hvalid] at hanswer
    cases hanswer
    rfl

/-- A level that no longer can be read does not matter to the object that is held; after a
reset it does, until it is repaired. -/
theorem answerAfter_exact_repaired :
    let env : Environment := [("LOG_LEVEL", "error")]
    let spoilt : List Step := [.get, .set "LOG_LEVEL" "loud"]
    let emptied : List Step := spoilt ++ [.get, .reset]
    let repaired : List Step := emptied ++ [.get, .set "LOG_LEVEL" "debug"]
    answerAfter env spoilt [] =
      some (.handed ⟨0, ⟨.development, .error, none, true⟩⟩ true) ∧
    (∃ fault, answerAfter env emptied [] = some (.failed fault)) ∧
    ∃ serial same, answerAfter env repaired [] =
      some (.handed ⟨serial, ⟨.development, .debug, none, true⟩⟩ same) := by
  intro env spoilt emptied repaired
  have hfailed : ∃ fault, answerAfter env emptied [] = some (.failed fault) := by
    refine ⟨⟨complaints (environmentAfter env emptied)⟩, ?_⟩
    decide +kernel
  refine ⟨?_, hfailed, ?_⟩
  · apply (answerAfter_exact env spoilt []).1
    exact ⟨[], [.set "LOG_LEVEL" "loud"], rfl, by decide, false, by decide +kernel⟩
  · obtain ⟨fault, hfailed⟩ := hfailed
    obtain ⟨_, hlater⟩ := (answerAfter_exact env emptied []).2.2 fault hfailed
    obtain ⟨⟨serial, settings⟩, same, hanswer, hsettings⟩ :=
      hlater [.set "LOG_LEVEL" "debug"] [] ⟨.development, .debug, none, true⟩
        (by decide +kernel)
    obtain rfl : settings = _ := hsettings (by decide)
    exact ⟨serial, same, hanswer⟩

end Cache
end Settings
end Worksheet
