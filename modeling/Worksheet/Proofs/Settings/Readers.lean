/-
The readers of an environment agree.

Whether an environment is valid can be asked in four ways: by its settings, by the complaints
about it, by a yes or no, and by the warning of a logger that follows it.  All four go by the one
check of the schema, and an environment passes if each variable of the schema is missing or holds
one of its words (`readers_agree`).  Each variable is checked by itself, so the report is the list
of those that fail, in the order of the schema, and no other variable has a part in it.  How a
complaint is worded is up to the checker.
-/
import Worksheet.Log.Logger
import Worksheet.Proofs.Check.Standard

namespace Worksheet

theorem Environment.field_toValue (env : Environment) (name : String) :
    env.toValue.field name = ((env.get? name).map Value.string).getD .absent := by
  have hlookup : (env.map fun entry => (entry.1, Value.string entry.2)).lookup name =
      (env.lookup name).map Value.string := by
    induction env with
    | nil => rfl
    | cons entry rest ih =>
      rw [List.map_cons, List.lookup_cons, List.lookup_cons, ih]
      cases name == entry.1 <;> rfl
  exact congrArg (Option.getD · Value.absent) hlookup

namespace Settings

/-! ## Variables -/

namespace Variable

/-- The words that a variable may hold. -/
def words : Variable → List String
  | stage => ["development", "production", "test"]
  | level => ["trace", "debug", "info", "warn", "error", "fatal", "silent"]
  | format => ["json", "pretty"]
  | sanitize => ["true", "false"]

/-- The variable is missing or holds one of its words. -/
def Allows (env : Environment) (v : Variable) : Prop :=
  ∀ text ∈ env.get? v.name, text ∈ v.words

instance (env : Environment) (v : Variable) : Decidable (v.Allows env) :=
  inferInstanceAs (Decidable (∀ text ∈ env.get? v.name, text ∈ v.words))

/-- What the check of the variable has against the text that the environment holds for it. -/
def Faulted (checker : Checker) (env : Environment) (v : Variable) (problem : Problem) : Prop :=
  ∃ text, env.get? v.name = some text ∧ v.check checker (.string text) = .error [⟨[], problem⟩]

/-- The issue of a variable: what is wrong with what it holds, under its name. -/
def Reported (checker : Checker) (env : Environment) (v : Variable) (issue : Issue) : Prop :=
  ∃ problem, v.Faulted checker env problem ∧ issue = ⟨[v.name], problem⟩

/-- The line about a variable: its name, and what is wrong with what it holds. -/
def Complaint (checker : Checker) (env : Environment) (v : Variable) (line : String) : Prop :=
  ∃ problem, v.Faulted checker env problem ∧ line = v.name ++ ": " ++ problem.message

end Variable

/-! ## What is asked of an environment -/

/-- Each variable that is read is missing or holds one of its words. -/
def Allowed (env : Environment) : Prop := ∀ v : Variable, v.Allows env

/-- The variables that the environment has a wrong word for, in the order of the schema. -/
def offending (env : Environment) : List Variable := Variable.all.filter fun v => ¬ v.Allows env

theorem offending_eq_nil_iff : offending env = [] ↔ Allowed env := by
  have hall : ∀ v, v ∈ Variable.all := (shape .standard).complete
  simp [offending, Allowed, hall]

/-- The two hold the same for each variable that is read. -/
def SameSettings (env other : Environment) : Prop :=
  ∀ v : Variable, other.get? v.name = env.get? v.name

/-! ## Reports -/

/-- The message about an environment, one line after the other. -/
theorem Invalid.message_eq {fault : Invalid} (h : fault.lines ≠ []) :
    fault.message = String.intercalate "\n"
      ("Environment validation failed:" :: fault.lines.map ("  - " ++ ·)) := by
  have hlines : fault.lines.map ("  - " ++ ·) ≠ [] := fun hnil => h (List.map_eq_nil_iff.mp hnil)
  have hhead : "Environment validation failed:" ++ "\n" = "Environment validation failed:\n" := by
    decide +kernel
  rw [String.intercalate_cons_of_ne_nil hlines, hhead]
  rfl

theorem overrides_of_error {checker : Checker} {env : Environment} {fault : Invalid}
    (h : ofEnvironment env checker = .error fault) :
    Overrides.ofEnvironment env checker = (.none,
      [⟨.warn, "[Logger] Falling back to default configuration: " ++ fault.message⟩]) := by
  rw [Overrides.ofEnvironment, h]

/-! ## One variable -/

section

variable {checker : Checker} (lawful : checker.Lawful) {env other : Environment}

include lawful

theorem reads_words (v : Variable) : (v.check checker).Reads v.words := by
  cases v with
  | stage => exact lawful.withDefault_reads stages (by decide)
  | level => exact lawful.withDefault_reads levels (by decide)
  | format => exact lawful.optional_reads formats
  | sanitize => exact lawful.transform_reads (lawful.withDefault_reads switches (by decide)) _

/-- A variable is checked by itself, and a wrong word is its one issue. -/
theorem verdict_cases (env : Environment) (v : Variable) :
    (v.Allows env ∧ ∃ part, (shape checker).verdict env.toValue v = .ok part) ∨
    (¬ v.Allows env ∧ ∃ problem, v.Faulted checker env problem ∧
      (shape checker).verdict env.toValue v = .error [⟨[], problem⟩]) := by
  have hreads := reads_words lawful v
  have hverdict : (shape checker).verdict env.toValue v =
      v.check checker (((env.get? v.name).map Value.string).getD .absent) := by
    rw [← env.field_toValue]
    rfl
  cases hheld : env.get? v.name with
  | none =>
    obtain ⟨part, hpart⟩ := hreads.absent
    refine .inl ⟨by simp [Variable.Allows, hheld], part, ?_⟩
    rw [hverdict, hheld]
    exact hpart
  | some text =>
    rw [hheld] at hverdict
    by_cases htext : text ∈ v.words
    · obtain ⟨part, hpart⟩ := hreads.word text htext
      exact .inl ⟨by simpa [Variable.Allows, hheld] using htext, part, hverdict.trans hpart⟩
    · obtain ⟨problem, hproblem⟩ := hreads.other text htext
      exact .inr ⟨by simpa [Variable.Allows, hheld] using htext, problem,
        ⟨text, hheld, hproblem⟩, hverdict.trans hproblem⟩

/-! ## All variables -/

/-- One issue for each variable that has a wrong word, under its name. -/
theorem forall₂_issues (env : Environment) (vs : List Variable) :
    List.Forall₂ (Variable.Reported checker env)
      (vs.filter fun v => ¬ v.Allows env)
      (vs.flatMap fun v =>
        ((shape checker).verdict env.toValue v).issues.map (Issue.under v.name)) := by
  induction vs with
  | nil => exact .nil
  | cons v rest ih =>
    rw [List.flatMap_cons]
    rcases verdict_cases lawful env v with ⟨hallows, part, hpart⟩ |
      ⟨hnot, problem, hfaulted, hissue⟩
    · rw [List.filter_cons_of_neg (by simpa using hallows), hpart]
      exact ih
    · rw [List.filter_cons_of_pos (by simpa using hnot), hissue]
      exact .cons ⟨problem, hfaulted, rfl⟩ ih

/-- The check of an environment succeeds if it is allowed, and otherwise reports what offends. -/
theorem ofValue_cases (env : Environment) :
    (Allowed env ∧ ∃ settings, ofValue env.toValue checker = .ok settings) ∨
    (¬ Allowed env ∧ ∃ issues, ofValue env.toValue checker = .error issues ∧
      List.Forall₂ (Variable.Reported checker env) (offending env) issues) := by
  rw [ofValue, Environment.toValue]
  rcases lawful.record_cases (shape checker) (env.map fun entry => (entry.1, .string entry.2)) with
    ⟨parts, hparts, hok⟩ | ⟨⟨v, issues, hissues⟩, herror⟩
  · refine .inl ⟨fun v => ?_, ofParts parts, by rw [hok]; rfl⟩
    rcases verdict_cases lawful env v with ⟨hallows, -⟩ | ⟨-, problem, -, hrefused⟩
    · exact hallows
    · cases (hparts v).symm.trans hrefused
  · refine .inr ⟨fun hallowed => ?_, (shape checker).issues env.toValue, by rw [herror]; rfl,
      forall₂_issues lawful env Variable.all⟩
    rcases verdict_cases lawful env v with ⟨-, part, htaken⟩ | ⟨hnot, -⟩
    · cases htaken.symm.trans hissues
    · exact hnot (hallowed v)

/-! ## The readers -/

theorem forall₂_complaints (env : Environment) :
    List.Forall₂ (Variable.Complaint checker env) (offending env) (complaints env checker) := by
  unfold complaints
  rcases ofValue_cases lawful env with ⟨hallowed, settings, hread⟩ | ⟨-, issues, hread, hissues⟩
  · rw [hread, offending_eq_nil_iff.mpr hallowed]
    exact .nil
  · simp only [hread]
    rw [List.forall₂_map_right_iff]
    refine hissues.imp ?_
    rintro v issue ⟨problem, hfaulted, rfl⟩
    exact ⟨problem, hfaulted, by rw [Issue.pathText, String.intercalate_singleton]⟩

theorem complaints_eq_nil_iff : complaints env checker = [] ↔ Allowed env := by
  rw [← offending_eq_nil_iff, ← List.length_eq_zero_iff, ← List.length_eq_zero_iff,
    (forall₂_complaints lawful env).length_eq]

theorem isValid_iff : isValid env checker = true ↔ Allowed env := by
  unfold isValid
  rcases ofValue_cases lawful env with ⟨hallowed, settings, hread⟩ | ⟨hnot, issues, hread, -⟩ <;>
    simp [*]

theorem ofEnvironment_cases (env : Environment) :
    (Allowed env ∧ ∃ settings, ofEnvironment env checker = .ok settings) ∨
    (¬ Allowed env ∧ ofEnvironment env checker = .error ⟨complaints env checker⟩) := by
  unfold ofEnvironment complaints
  rcases ofValue_cases lawful env with ⟨hallowed, settings, hread⟩ | ⟨hnot, issues, hread, -⟩
  · exact .inl ⟨hallowed, settings, by rw [hread]⟩
  · exact .inr ⟨hnot, by rw [hread]⟩

theorem warnings_eq_nil_iff : (Overrides.ofEnvironment env checker).2 = [] ↔ Allowed env := by
  rcases ofEnvironment_cases lawful env with ⟨hallowed, settings, hread⟩ | ⟨hnot, hread⟩
  · rw [Overrides.ofEnvironment, hread]
    exact ⟨fun _ => hallowed, fun _ => rfl⟩
  · rw [overrides_of_error hread]
    exact ⟨fun hnil => absurd hnil (List.cons_ne_nil _ _), fun hallowed => absurd hallowed hnot⟩

theorem SameSettings.ofValue_eq (h : SameSettings env other) :
    ofValue other.toValue checker = ofValue env.toValue checker := by
  have hverdict : ∀ v, (shape checker).verdict other.toValue v =
      (shape checker).verdict env.toValue v := by
    intro v
    show v.check checker (other.toValue.field v.name) = v.check checker (env.toValue.field v.name)
    rw [other.field_toValue, env.field_toValue, h v]
  have hissues : (shape checker).issues other.toValue = (shape checker).issues env.toValue := by
    simp only [Shape.issues, hverdict]
  rw [ofValue, ofValue]
  congr 1
  rcases lawful.record_cases (shape checker) (env.map fun entry => (entry.1, .string entry.2)) with
    ⟨parts, hparts, hok⟩ | ⟨⟨v, issues, hrefused⟩, herror⟩
  · exact (lawful.record_takes _ _ _ fun v => (hverdict v).trans (hparts v)).trans hok.symm
  · exact ((lawful.record_refuses _ _ _ _ ((hverdict v).trans hrefused)).trans
      (congrArg Except.error hissues)).trans herror.symm

end

/-- All readers take the environments in which each variable of the schema is missing or holds one
of its words.  Of another environment they report the variables that offend, each once and in the
order of the schema, and a logger that follows it falls back to its defaults with one warning.
Nothing that is read depends on any other variable. -/
theorem readers_agree (checker : Checker) (lawful : checker.Lawful) (env : Environment) :
    ((∃ settings, ofEnvironment env checker = .ok settings) ↔ Allowed env) ∧
    (complaints env checker = [] ↔ Allowed env) ∧
    (isValid env checker = true ↔ Allowed env) ∧
    ((Overrides.ofEnvironment env checker).2 = [] ↔ Allowed env) ∧
    List.Forall₂ (Variable.Complaint checker env) (offending env) (complaints env checker) ∧
    (¬ Allowed env → ∃ fault, ofEnvironment env checker = .error fault ∧
      fault.message = String.intercalate "\n"
        ("Environment validation failed:" :: (complaints env checker).map ("  - " ++ ·)) ∧
      Overrides.ofEnvironment env checker = (.none,
        [⟨.warn, "[Logger] Falling back to default configuration: " ++ fault.message⟩])) ∧
    ∀ other, SameSettings env other →
      ofEnvironment other checker = ofEnvironment env checker ∧
      complaints other checker = complaints env checker ∧
      isValid other checker = isValid env checker ∧
      Overrides.ofEnvironment other checker = Overrides.ofEnvironment env checker := by
  refine ⟨?_, complaints_eq_nil_iff lawful, isValid_iff lawful, warnings_eq_nil_iff lawful,
    forall₂_complaints lawful env, fun hnot => ?_, fun other hsame => ?_⟩
  · rcases ofEnvironment_cases lawful env with ⟨hallowed, hread⟩ | ⟨hnot, hread⟩
    · exact ⟨fun _ => hallowed, fun _ => hread⟩
    · rw [hread]
      exact ⟨fun ⟨settings, heq⟩ => (by cases heq), fun hallowed => absurd hallowed hnot⟩
  · rcases ofEnvironment_cases lawful env with ⟨hallowed, -⟩ | ⟨-, hread⟩
    · exact absurd hallowed hnot
    · exact ⟨_, hread, Invalid.message_eq fun hnil => hnot ((complaints_eq_nil_iff lawful).mp hnil),
        overrides_of_error hread⟩
  · have hcheck := hsame.ofValue_eq lawful
    have hcomplaints : complaints other checker = complaints env checker := by
      rw [complaints, complaints, hcheck]
    have hread : ofEnvironment other checker = ofEnvironment env checker := by
      rw [ofEnvironment, ofEnvironment, hcheck]
    refine ⟨hread, hcomplaints, by rw [isValid, isValid, hcheck], ?_⟩
    rw [Overrides.ofEnvironment, Overrides.ofEnvironment, hread]

/-- Two wrong words, one of them empty, against the order of the schema. -/
theorem readers_agree_two_faults :
    Checker.standard.Lawful ∧
    complaints [("LOG_SANITIZE", ""), ("PATH", "x"), ("LOG_FORMAT", "JSON")] =
      ["LOG_FORMAT: Invalid enum value. Expected 'json' | 'pretty', received 'JSON'",
        "LOG_SANITIZE: Invalid enum value. Expected 'true' | 'false', received ''"] ∧
    List.Forall₂
      (Variable.Complaint .standard [("LOG_SANITIZE", ""), ("PATH", "x"), ("LOG_FORMAT", "JSON")])
      [.format, .sanitize]
      (complaints [("LOG_SANITIZE", ""), ("PATH", "x"), ("LOG_FORMAT", "JSON")]) :=
  ⟨Checker.lawful_standard, by decide +kernel,
    (readers_agree .standard Checker.lawful_standard
      [("LOG_SANITIZE", ""), ("PATH", "x"), ("LOG_FORMAT", "JSON")]).2.2.2.2.1⟩

end Settings
end Worksheet
