/-
A walk finds what evaluation without a memory finds.

A walk keeps marks where `Sheet.naive` keeps a path.  `Ends` says all that a step can do to
the marks, from any marks that are sound and have the cells of the path in progress.  A step
that fails may leave cells in progress, so what is said of those is said of steps that have
a value.
-/
import Worksheet.Proofs.Marks

namespace Worksheet

/-! ## What a step does -/

/-- All that a step from `before` comes to, where `needs` are the cells that it asks for. -/
structure Walk.Ends (sheet : Sheet) (path : List sheet.Member) (needs : sheet.Member → Prop)
    (outcome : Outcome) (before : Progress) (result : Outcome) (after : Progress) : Prop where
  result_eq : result = outcome
  sound : after.Sound sheet
  keeps : before.Keeps after
  reached : ∀ (other : sheet.Member) y, after other = .done y →
    before other = .done y ∨ ∃ target, needs target ∧ sheet.Reaches target other
  onPath : ∀ x, result = .ok x → after.OnPath sheet path
  done : ∀ x, result = .ok x → ∀ target, needs target → ∃ y, after target = .done y

/-- The step comes to the outcome from all progress in which the cells of the path are in
progress. -/
def Walk.Finds (sheet : Sheet) (path : List sheet.Member) (needs : sheet.Member → Prop)
    (walk : Walk) (outcome : Outcome) : Prop :=
  ∀ before, Progress.OnPath sheet path before → Progress.Sound sheet before →
    ∀ result after, walk before = some (result, after) →
      Walk.Ends sheet path needs outcome before result after

namespace Walk
namespace Ends

open Sheet

variable {sheet : Sheet} {path : List sheet.Member} {needs : sheet.Member → Prop}

/-- A step that asks for no cell, or that fails at once, leaves the marks alone. -/
theorem still {outcome : Outcome} {progress : Progress} (hp : progress.OnPath sheet path)
    (hs : progress.Sound sheet)
    (hneeds : ∀ x, outcome = .ok x → ∀ target, needs target → ∃ y, progress target = .done y) :
    Ends sheet path needs outcome progress outcome progress where
  result_eq := rfl
  sound := hs
  keeps := Progress.Keeps.refl progress
  reached _ _ h := .inl h
  onPath _ _ := hp
  done := hneeds

/-- A step that fails has failed as it was to, and asks for no more than a longer one. -/
theorem fail {wider : sheet.Member → Prop} {outcome : Outcome} {before after : Progress}
    {fault : Fault} (h : Ends sheet path needs outcome before (.error fault) after)
    (hsub : ∀ target, needs target → wider target) :
    Ends sheet path wider (.error fault) before (.error fault) after where
  result_eq := rfl
  sound := h.sound
  keeps := h.keeps
  reached other y hy := by
    rcases h.reached other y hy with hold | ⟨target, hneed, hr⟩
    · exact .inl hold
    · exact .inr ⟨target, hsub target hneed, hr⟩
  onPath x hx := by cases hx
  done x hx := by cases hx

/-- One step after another asks for what either asks for. -/
theorem comp {first second both : sheet.Member → Prop} {before middle after : Progress}
    {x : Binary64} {left right result : Outcome}
    (hl : Ends sheet path first left before (.ok x) middle)
    (hr : Ends sheet path second right middle result after)
    (hboth : ∀ target, both target ↔ first target ∨ second target) :
    Ends sheet path both right before result after where
  result_eq := hr.result_eq
  sound := hr.sound
  keeps := hl.keeps.trans hr.keeps
  reached other y hy := by
    rcases hr.reached other y hy with hmiddle | ⟨target, hneed, hreach⟩
    · rcases hl.reached other y hmiddle with hold | ⟨target, hneed, hreach⟩
      · exact .inl hold
      · exact .inr ⟨target, (hboth target).mpr (.inl hneed), hreach⟩
    · exact .inr ⟨target, (hboth target).mpr (.inr hneed), hreach⟩
  onPath := hr.onPath
  done y hy target hneed := by
    rcases (hboth target).mp hneed with hfirst | hsecond
    · obtain ⟨z, hz⟩ := hl.done x rfl target hfirst
      exact ⟨z, hr.keeps target z hz⟩
    · exact hr.done y hy target hsecond

/-- What is made of a value afterwards does not touch the marks. -/
theorem map {outcome : Outcome} {before after : Progress} {x : Binary64} {final : Outcome}
    (h : Ends sheet path needs outcome before (.ok x) after) :
    Ends sheet path needs final before final after where
  result_eq := rfl
  sound := h.sound
  keeps := h.keeps
  reached := h.reached
  onPath _ _ := h.onPath x rfl
  done _ _ := h.done x rfl

/-- What the references of a cell come to, seen from before the cell was started. -/
theorem reached_from {cell : sheet.Member} {outcome result : Outcome} {before after : Progress}
    (h : Ends sheet (cell :: path) (sheet.Refers cell) outcome (before.set cell .inProgress)
      result after) (other : sheet.Member) (y : Binary64) (hy : after other = .done y) :
    before other = .done y ∨ ∃ target, target = cell ∧ sheet.Reaches target other := by
  rcases h.reached other y hy with hold | ⟨target, hr, hreach⟩
  · by_cases heq : other = cell
    · rw [heq, Progress.set_self] at hold
      cases hold
    · rw [Progress.set_other before heq] at hold
      exact .inl hold
  · exact .inr ⟨cell, rfl, Relation.ReflTransGen.head hr hreach⟩

theorem leave {cell : sheet.Member} {outcome : Outcome} {before after : Progress} {fault : Fault}
    (h : Ends sheet (cell :: path) (sheet.Refers cell) outcome (before.set cell .inProgress)
      (.error fault) after) (hstart : before cell = .notStarted) :
    Ends sheet path (· = cell) (.error fault) before (.error fault) after where
  result_eq := rfl
  sound := h.sound
  keeps := (Progress.keeps_start hstart).trans h.keeps
  reached := h.reached_from
  onPath x hx := by cases hx
  done x hx := by cases hx

theorem finish {cell : sheet.Member} {outcome : Outcome} {before after : Progress} {x : Binary64}
    (h : Ends sheet (cell :: path) (sheet.Refers cell) outcome (before.set cell .inProgress)
      (.ok x) after) (hstart : before cell = .notStarted) (hoff : cell ∉ path)
    (hvalue : sheet.naive path cell = .ok x) :
    Ends sheet path (· = cell) (.ok x) before (.ok x) (after.set cell (.done x)) where
  result_eq := rfl
  sound := h.sound.finish (naive_nil_eq_ok hvalue) (h.done x rfl)
  keeps := by
    have hprogress : after cell = .inProgress :=
      (h.onPath x rfl cell).mpr List.mem_cons_self
    refine ((Progress.keeps_start hstart).trans h.keeps).trans (Progress.keeps_set fun y hy => ?_)
    rw [hprogress] at hy
    cases hy
  reached other y hy := by
    by_cases heq : other = cell
    · exact .inr ⟨cell, rfl, heq ▸ Relation.ReflTransGen.refl⟩
    · rw [Progress.set_other after heq] at hy
      exact h.reached_from other y hy
  onPath _ _ := (h.onPath x rfl).finish hoff x
  done _ _ target heq := ⟨x, by rw [heq, Progress.set_self]⟩

end Ends
end Walk

/-! ## Operands -/

namespace Sheet

variable {sheet : Sheet} {path : List sheet.Member} {visit : Cell → Walk}
  {value : sheet.Member → Outcome}

/-- The operand is a fault, a number or a cell, and is then so to a walk and to a reading. -/
theorem operand_cases (sheet : Sheet) (operand : Operand) :
    (∃ fault, sheet.source operand.text = .faulty fault ∧
      ∀ value, sheet.interpretOperand value operand = .error fault) ∨
    (∃ x, sheet.source operand.text = .value x ∧ (∀ target, ¬ sheet.Names operand target) ∧
      ∀ value, sheet.interpretOperand value operand = .ok (operand.sign.apply x)) ∨
    ∃ target : sheet.Member, sheet.source operand.text = .cell target ∧
      (∀ other, other = target ↔ sheet.Names operand other) ∧
      ∀ value, sheet.interpretOperand value operand =
        match value target with
        | .error fault => .error fault
        | .ok x => .ok (operand.sign.apply x) := by
  unfold source interpretOperand
  cases hparse : Term.parse operand.text with
  | error fault => exact .inl ⟨fault, rfl, fun _ => rfl⟩
  | ok term =>
    cases term with
    | literal x =>
      refine .inr (.inl ⟨x, rfl, fun target hnames => ?_, fun _ => rfl⟩)
      obtain ⟨label, position, hreference, -⟩ := hnames
      rw [hparse] at hreference
      cases hreference
    | reference label position =>
      cases hfound : sheet.memberAt? position with
      | none =>
        refine .inl ⟨sheet.outOfRange label, ?_, fun value => ?_⟩
        · simp only [memberAt?_eq_none hfound]
        · simp only [hfound]
      | some target =>
        have hnames : sheet.Names operand target := ⟨label, position, hparse, hfound⟩
        refine .inr (.inr ⟨target, ?_, fun other => ?_, fun value => ?_⟩)
        · simp only [memberAt?_eq_some hfound]
        · exact ⟨fun h => h ▸ hnames, fun h => names_unique h hnames⟩
        · cases hvalue : value target with
          | error fault => simp only [hfound, hvalue]
          | ok x => simp only [hfound, hvalue]

theorem summand_resolve (sheet : Sheet) (visit : Cell → Walk) (operand : Operand)
    (progress : Progress) :
    (sheet.summand operand).resolve visit progress =
      match (sheet.source operand.text).resolve visit progress with
      | none => none
      | some (.error fault, after) => some (.error fault, after)
      | some (.ok x, after) => some (.ok (operand.sign.apply x), after) := rfl

theorem summand_finds
    (hvisit : ∀ target : sheet.Member,
      Walk.Finds sheet path (· = target) (visit target) (value target))
    (operand : Operand) :
    Walk.Finds sheet path (sheet.Names operand) ((sheet.summand operand).resolve visit)
      (sheet.interpretOperand value operand) := by
  intro before hp hs result after hstep
  rw [summand_resolve] at hstep
  rcases sheet.operand_cases operand with ⟨fault, hsource, hread⟩ | ⟨x, hsource, hnone, hread⟩ |
      ⟨target, hsource, honly, hread⟩
  · rw [hsource] at hstep
    cases hstep
    rw [hread]
    exact Walk.Ends.still hp hs fun x hx => by cases hx
  · rw [hsource] at hstep
    cases hstep
    rw [hread]
    exact Walk.Ends.still hp hs fun _ _ target hnames => absurd hnames (hnone target)
  · rw [hsource] at hstep
    rw [hread]
    have hneeds : sheet.Names operand = (· = target) := by
      funext other
      exact propext (honly other).symm
    rw [hneeds]
    cases hvisited : visit target before with
    | none =>
      simp only [Source.resolve, hvisited] at hstep
      cases hstep
    | some visited =>
      obtain ⟨found, last⟩ := visited
      have hends := hvisit target before hp hs found last hvisited
      simp only [Source.resolve, hvisited] at hstep
      rw [← hends.result_eq]
      cases found with
      | error fault =>
        cases hstep
        exact hends.fail fun _ h => h
      | ok x =>
        cases hstep
        exact hends.map

/-! ## Cells -/

theorem refers_iff {cell : sheet.Member} {formula : Formula} (h : sheet.HasFormula cell formula)
    (target : sheet.Member) :
    sheet.Refers cell target ↔ ∃ operand ∈ formula.operands, sheet.Names operand target := by
  constructor
  · rintro ⟨other, operand, hother, ho, hnames⟩
    rw [hasFormula_unique h hother]
    exact ⟨operand, ho, hnames⟩
  · rintro ⟨operand, ho, hnames⟩
    exact ⟨formula, operand, h, ho, hnames⟩

theorem not_refers {cell : sheet.Member} (h : ∀ rest, sheet.trimmed cell ≠ '=' :: rest)
    (target : sheet.Member) : ¬ sheet.Refers cell target := by
  rintro ⟨formula, operand, ⟨rest, htext, -⟩, -⟩
  exact h rest htext

/-- A formula that parses is walked through as it is read. -/
theorem formula_finds
    (hvisit : ∀ target : sheet.Member,
      Walk.Finds sheet path (· = target) (visit target) (value target))
    {text : String} {formula : Formula} (hparse : Formula.parse text = .ok formula) :
    Walk.Finds sheet path (fun target => ∃ operand ∈ formula.operands, sheet.Names operand target)
      ((sheet.formulaContent text).resolve visit) (sheet.interpretFormula value text formula) := by
  intro before hp hs result after hstep
  unfold formulaContent at hstep
  rw [hparse] at hstep
  cases formula with
  | single operand =>
    have hneeds : (fun target => ∃ only ∈ (Formula.single operand).operands,
        sheet.Names only target) = sheet.Names operand := by
      simp [Formula.operands]
    rw [hneeds]
    exact summand_finds hvisit operand before hp hs result after hstep
  | binary left operator right =>
    have hneeds : ∀ target, (∃ operand ∈ (Formula.binary left operator right).operands,
        sheet.Names operand target) ↔ sheet.Names left target ∨ sheet.Names right target := by
      simp [Formula.operands]
    simp only [Content.resolve] at hstep
    simp only [interpretFormula]
    cases hl : (sheet.summand left).resolve visit before with
    | none =>
      simp only [hl] at hstep
      cases hstep
    | some first =>
      obtain ⟨found, middle⟩ := first
      have hleft := summand_finds hvisit left before hp hs found middle hl
      rw [← hleft.result_eq]
      simp only [hl] at hstep
      cases found with
      | error fault =>
        cases hstep
        exact hleft.fail fun target h => (hneeds target).mpr (.inl h)
      | ok x =>
        simp only at hstep
        cases hr : (sheet.summand right).resolve visit middle with
        | none =>
          simp only [hr] at hstep
          cases hstep
        | some second =>
          obtain ⟨found, last⟩ := second
          have hright := summand_finds hvisit right middle (hleft.onPath x rfl) hleft.sound
            found last hr
          have hboth := hleft.comp hright hneeds
          simp only [hr] at hstep
          cases found with
          | error fault =>
            cases hstep
            rw [← hright.result_eq]
            exact hboth.fail fun _ h => h
          | ok y =>
            cases hstep
            rw [← hright.result_eq]
            exact hboth.map

theorem content_finds
    (hvisit : ∀ target : sheet.Member,
      Walk.Finds sheet path (· = target) (visit target) (value target))
    (cell : sheet.Member) :
    Walk.Finds sheet path (sheet.Refers cell) ((sheet.content cell).resolve visit)
      (sheet.interpret value cell) := by
  intro before hp hs result after hstep
  unfold content at hstep
  unfold interpret
  have htrim : Text.trim (sheet.text cell.1).toList = sheet.trimmed cell := rfl
  rw [htrim] at hstep
  split
  · rename_i hblank
    simp only [hblank] at hstep
    cases hstep
    have hnone : ∀ target, ¬ sheet.Refers cell target := not_refers (by simp [hblank])
    exact Walk.Ends.still hp hs fun _ _ target hr => absurd hr (hnone target)
  · rename_i rest htext
    simp only [htext] at hstep
    cases hparse : Formula.parse (String.ofList (Text.trim rest)) with
    | error fault =>
      simp only [formulaContent, hparse] at hstep
      cases hstep
      exact Walk.Ends.still hp hs fun x hx => by cases hx
    | ok formula =>
      have hneeds : sheet.Refers cell =
          fun target => ∃ operand ∈ formula.operands, sheet.Names operand target := by
        funext target
        exact propext (refers_iff ⟨rest, htext, hparse⟩ target)
      rw [hneeds]
      exact formula_finds hvisit hparse before hp hs result after hstep
  · rename_i hblank hformula
    have hnone : ∀ target, ¬ sheet.Refers cell target := not_refers hformula
    split at hstep
    · rename_i h
      exact absurd h hblank
    · rename_i rest h
      exact absurd h (hformula rest)
    · cases hparse : Literal.parse? (sheet.trimmed cell) with
      | some x =>
        simp only [hparse] at hstep
        cases hstep
        exact Walk.Ends.still hp hs fun _ _ target hr => absurd hr (hnone target)
      | none =>
        simp only [hparse] at hstep
        cases hstep
        exact Walk.Ends.still hp hs fun x hx => by cases hx

/-- Evaluation with marks finds what evaluation without a memory finds. -/
theorem visit_finds (sheet : Sheet) (fuel : Nat) (path : List sheet.Member) (cell : sheet.Member) :
    Walk.Finds sheet path (· = cell) (sheet.visit fuel cell) (sheet.naive path cell) := by
  induction fuel generalizing path cell with
  | zero =>
    intro before hp hs result after hstep
    cases hstep
  | succ fuel ih =>
    intro before hp hs result after hstep
    simp only [visit] at hstep
    split at hstep
    · rename_i x hdone
      cases hstep
      rw [hs.naive_eq_ok hp hdone]
      exact Walk.Ends.still hp hs fun y _ target heq => ⟨x, heq ▸ hdone⟩
    · rename_i hprogress
      cases hstep
      rw [naive_of_mem ((hp cell).mp hprogress)]
      exact Walk.Ends.still hp hs fun x hx => by cases hx
    · rename_i hstart
      have hoff : cell ∉ path := by
        intro hmem
        rw [(hp cell).mpr hmem] at hstart
        cases hstart
      have hvisit : ∀ target : sheet.Member, Walk.Finds sheet (cell :: path) (· = target)
          (sheet.visit fuel target) (sheet.naive (cell :: path) target) :=
        fun target => ih (cell :: path) target
      have hfinds := content_finds hvisit cell (before.set cell .inProgress) (hp.start cell)
        (hs.start hstart)
      cases hwalk : (sheet.content cell).resolve (sheet.visit fuel)
          (before.set cell .inProgress) with
      | none =>
        rw [hwalk] at hstep
        cases hstep
      | some walked =>
        obtain ⟨found, last⟩ := walked
        have hends := hfinds found last hwalk
        have hnaive : sheet.naive path cell = found :=
          (naive_of_not_mem hoff).trans hends.result_eq.symm
        rw [hwalk] at hstep
        rw [hnaive]
        cases found with
        | error fault =>
          -- The cell stays in progress here; the request that fails gives it up.
          cases hstep
          exact hends.leave hstart
        | ok x =>
          cases hstep
          exact hends.finish hstart hoff hnaive

end Sheet
end Worksheet
