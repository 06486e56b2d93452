/-
What a request answers.

Between requests no cell is in progress (`AtRest`).  A request that starts so ends so, keeps
what was done, and answers from the sheet alone: a cell has its naive value, and a request
for all cells has the table of the naive values or the fault of the first cell, row by row,
that has none.
-/
import Worksheet.Proofs.Table
import Worksheet.Proofs.Walk

namespace Worksheet

/-! ## Requests for one cell -/

namespace Progress

/-- Nothing is in progress, and what is done is sound. -/
structure AtRest (sheet : Sheet) (progress : Progress) : Prop where
  idle : progress.OnPath sheet []
  sound : progress.Sound sheet

theorem atRest_fresh (sheet : Sheet) : AtRest sheet fresh :=
  ⟨onPath_fresh sheet, sound_fresh sheet⟩

theorem settle_eq_done_iff {progress : Progress} {cell : Cell} {x : Binary64} :
    progress.settle cell = .done x ↔ progress cell = .done x := by
  unfold settle
  cases progress cell <;> simp [Mark.settled]

/-- Giving up what is in progress takes nothing from what is done. -/
theorem atRest_settle {sheet : Sheet} {progress : Progress} (hs : progress.Sound sheet) :
    progress.settle.AtRest sheet := by
  constructor
  · intro cell
    unfold settle
    cases progress cell <;> simp [Mark.settled]
  · constructor
    · intro cell x h
      exact hs.value cell x (settle_eq_done_iff.mp h)
    · intro cell target x h hr
      obtain ⟨y, hy⟩ := hs.closed cell target x (settle_eq_done_iff.mp h) hr
      exact ⟨y, settle_eq_done_iff.mpr hy⟩

theorem keeps_settle (progress : Progress) : Keeps progress progress.settle :=
  fun _ _ h => settle_eq_done_iff.mpr h

end Progress

namespace Sheet

variable {sheet : Sheet} {before after : Progress}

theorem resolve_ends (h : before.AtRest sheet) (cell : sheet.Member) :
    Walk.Ends sheet [] (· = cell) (sheet.naive [] cell) before
      (sheet.resolve cell cell.2 before).1 (sheet.resolve cell cell.2 before).2 :=
  sheet.visit_finds sheet.fuel [] cell before h.idle h.sound _ _
    (visit_eq_some_resolve cell.2 before)

/-- Ending a request for a cell leaves the marks at rest. -/
theorem close_atRest {α : Type} {result : Except Fault α}
    (hs : after.Sound sheet) (hp : ∀ x, result = .ok x → after.OnPath sheet []) :
    (close (result, after)).2.AtRest sheet := by
  cases result with
  | ok x => exact ⟨hp x rfl, hs⟩
  | error fault => exact Progress.atRest_settle hs

theorem keeps_close {α : Type} (result : Except Fault α) (progress : Progress) :
    progress.Keeps (close (result, progress)).2 := by
  cases result with
  | ok x => exact Progress.Keeps.refl progress
  | error fault => exact Progress.keeps_settle progress

theorem fst_close {α : Type} (result : Except Fault α) (progress : Progress) :
    (close (result, progress)).1 = result := by
  cases result <;> rfl

theorem evaluate_answer (h : before.AtRest sheet) (cell : Except Fault sheet.Member) :
    (sheet.evaluate cell before).1 = cell.bind (sheet.naive []) := by
  cases cell with
  | ok cell => exact (fst_close _ _).trans (resolve_ends h cell).result_eq
  | error fault => rfl

theorem evaluate_atRest (h : before.AtRest sheet) (cell : Except Fault sheet.Member) :
    (sheet.evaluate cell before).2.AtRest sheet := by
  cases cell with
  | ok cell => exact close_atRest (resolve_ends h cell).sound (resolve_ends h cell).onPath
  | error fault => exact Progress.atRest_settle h.sound

theorem keeps_evaluate (h : before.AtRest sheet) (cell : Except Fault sheet.Member) :
    before.Keeps (sheet.evaluate cell before).2 := by
  cases cell with
  | ok cell => exact (resolve_ends h cell).keeps.trans (keeps_close _ _)
  | error fault => exact Progress.keeps_settle before

/-! ## Requests for all cells -/

/-- Cells that are all evaluated are all done. -/
theorem resolveEach_ok (h : before.AtRest sheet) {cells : List sheet.Member}
    (hr : sheet.resolveEach cells before = (.ok (), after)) :
    after.AtRest sheet ∧ before.Keeps after ∧
      ∀ cell : sheet.Member, cell ∈ cells → ∃ x, after cell = .done x := by
  induction cells generalizing before with
  | nil =>
    cases hr
    exact ⟨h, Progress.Keeps.refl _, fun cell hc => (by cases hc)⟩
  | cons cell rest ih =>
    have hends := resolve_ends h cell
    simp only [resolveEach] at hr
    split at hr
    · rename_i x middle hstep
      rw [hstep] at hends
      obtain ⟨hrest, hkeeps, hdone⟩ := ih ⟨hends.onPath x rfl, hends.sound⟩ hr
      refine ⟨hrest, hends.keeps.trans hkeeps, fun other ho => ?_⟩
      rcases List.mem_cons.mp ho with rfl | hin
      · obtain ⟨y, hy⟩ := hends.done x rfl other rfl
        exact ⟨y, hkeeps other y hy⟩
      · exact hdone other hin
    · cases hr

/-- Evaluating one cell after the other stops at the first that has no value, with all the
cells before it done. -/
theorem resolveEach_error (h : before.AtRest sheet) {cells : List sheet.Member} {fault : Fault}
    (hr : sheet.resolveEach cells before = (.error fault, after)) :
    after.Sound sheet ∧ before.Keeps after ∧ ∃ first cell last, cells = first ++ cell :: last ∧
      (∀ other : sheet.Member, other ∈ first → ∃ x, after other = .done x) ∧
      sheet.naive [] cell = .error fault := by
  induction cells generalizing before with
  | nil => cases hr
  | cons cell rest ih =>
    have hends := resolve_ends h cell
    simp only [resolveEach] at hr
    split at hr
    · rename_i x middle hstep
      rw [hstep] at hends
      obtain ⟨hs, hkeeps, first, next, last, hsplit, hdone, hfault⟩ :=
        ih ⟨hends.onPath x rfl, hends.sound⟩ hr
      refine ⟨hs, hends.keeps.trans hkeeps, cell :: first, next, last, by rw [hsplit]; rfl, ?_,
        hfault⟩
      intro other ho
      rcases List.mem_cons.mp ho with rfl | hin
      · obtain ⟨y, hy⟩ := hends.done x rfl other rfl
        exact ⟨y, hkeeps other y hy⟩
      · exact hdone other hin
    · rename_i found middle hstep
      rw [hstep] at hends
      cases hr
      exact ⟨hends.sound, hends.keeps, [], cell, rest, rfl, fun other ho => (by cases ho),
        hends.result_eq.symm⟩

theorem evaluateAll_atRest (h : before.AtRest sheet) :
    (sheet.evaluateAll before).2.AtRest sheet := by
  unfold evaluateAll
  cases hr : sheet.resolveEach sheet.members before with
  | mk result last =>
    cases result with
    | ok found => exact (resolveEach_ok h hr).1
    | error fault => exact Progress.atRest_settle (resolveEach_error h hr).1

theorem keeps_evaluateAll (h : before.AtRest sheet) :
    before.Keeps (sheet.evaluateAll before).2 := by
  unfold evaluateAll
  cases hr : sheet.resolveEach sheet.members before with
  | mk result last =>
    cases result with
    | ok found => exact (resolveEach_ok h hr).2.1
    | error fault => exact (resolveEach_error h hr).2.1.trans (Progress.keeps_settle last)

/-- The table of the naive values of all cells. -/
def IsNaiveTable (sheet : Sheet) (table : Table) : Prop :=
  Table.HasShape sheet table ∧ ∀ cell : sheet.Member, ∃ x, sheet.naive [] cell = .ok x ∧
    Table.valueAt? table cell = some x

/-- The naive fault of the first cell, row by row, that has no naive value. -/
def IsFirstNaiveFault (sheet : Sheet) (fault : Fault) : Prop :=
  ∃ cell : sheet.Member, sheet.naive [] cell = .error fault ∧
    ∀ other : sheet.Member, other.1.Precedes cell → ∃ x, sheet.naive [] other = .ok x

theorem isNaiveTable_unique {table other : Table} (h : sheet.IsNaiveTable table)
    (ho : sheet.IsNaiveTable other) : table = other := by
  refine Table.eq_of_entries h.1 ho.1 fun cell => ?_
  obtain ⟨x, hx, hentry⟩ := h.2 cell
  obtain ⟨y, hy, hentry'⟩ := ho.2 cell
  rw [hx] at hy
  cases hy
  rw [hentry, hentry']

theorem isFirstNaiveFault_unique {fault other : Fault} (h : sheet.IsFirstNaiveFault fault)
    (ho : sheet.IsFirstNaiveFault other) : fault = other := by
  obtain ⟨cell, hcell, hbefore⟩ := h
  obtain ⟨cell', hcell', hbefore'⟩ := ho
  rcases Cell.precedes_or_eq_or_precedes cell.1 cell'.1 with hlt | heq | hgt
  · obtain ⟨x, hx⟩ := hbefore' cell hlt
    rw [hx] at hcell
    cases hcell
  · rw [Subtype.ext heq, hcell'] at hcell
    cases hcell
    rfl
  · obtain ⟨x, hx⟩ := hbefore cell' hgt
    rw [hx] at hcell'
    cases hcell'

theorem not_isFirstNaiveFault {table : Table} (h : sheet.IsNaiveTable table) (fault : Fault) :
    ¬ sheet.IsFirstNaiveFault fault := by
  rintro ⟨cell, hcell, -⟩
  obtain ⟨x, hx, -⟩ := h.2 cell
  rw [hx] at hcell
  cases hcell

/-- The cells are visited in order, so what precedes a cell has been visited before it. -/
theorem mem_of_precedes {first last : List sheet.Member} {cell other : sheet.Member}
    (hsplit : sheet.members = first ++ cell :: last) (hlt : other.1.Precedes cell.1) :
    other ∈ first := by
  have horder := sheet.pairwise_members
  have hmem := mem_members other
  rw [hsplit] at horder hmem
  rcases List.mem_append.mp hmem with hin | hin
  · exact hin
  · rcases List.mem_cons.mp hin with rfl | hlater
    · exact absurd hlt hlt.asymm
    · have hafter := (List.pairwise_append.mp horder).2.1
      exact absurd hlt ((List.pairwise_cons.mp hafter).1 other hlater).asymm

/-- A request for all cells that fails has met a cell without a value, with all the cells before
it done. -/
theorem evaluateAll_eq_error (h : before.AtRest sheet) {fault : Fault}
    (hfault : (sheet.evaluateAll before).1 = .error fault) :
    ∃ cell : sheet.Member, sheet.naive [] cell = .error fault ∧
      ∀ other : sheet.Member, other.1.Precedes cell.1 →
        ∃ x, (sheet.evaluateAll before).2 other = .done x := by
  unfold evaluateAll at hfault ⊢
  cases hr : sheet.resolveEach sheet.members before with
  | mk result last =>
    rw [hr] at hfault
    cases result with
    | ok found => cases hfault
    | error found =>
      cases hfault
      obtain ⟨-, -, first, cell, rest, hsplit, hdone, hnaive⟩ := resolveEach_error h hr
      refine ⟨cell, hnaive, fun other hlt => ?_⟩
      obtain ⟨x, hx⟩ := hdone other (mem_of_precedes hsplit hlt)
      exact ⟨x, Progress.settle_eq_done_iff.mpr hx⟩

theorem evaluateAll_cases (h : before.AtRest sheet) :
    (∃ table, (sheet.evaluateAll before).1 = .ok table ∧ sheet.IsNaiveTable table) ∨
    ∃ fault, (sheet.evaluateAll before).1 = .error fault ∧ sheet.IsFirstNaiveFault fault := by
  cases hanswer : (sheet.evaluateAll before).1 with
  | error fault =>
    obtain ⟨cell, hfault, hdone⟩ := evaluateAll_eq_error h hanswer
    refine .inr ⟨fault, rfl, cell, hfault, fun other hlt => ?_⟩
    obtain ⟨x, hx⟩ := hdone other hlt
    exact ⟨x, (evaluateAll_atRest h).sound.value other x hx⟩
  | ok table =>
    refine .inl ⟨table, rfl, ?_⟩
    unfold evaluateAll at hanswer
    cases hr : sheet.resolveEach sheet.members before with
    | mk result last =>
      rw [hr] at hanswer
      cases result with
      | error found => cases hanswer
      | ok found =>
        cases hanswer
        obtain ⟨hrest, -, hdone⟩ := resolveEach_ok h hr
        refine ⟨Table.hasShape_table sheet last, fun cell => ?_⟩
        obtain ⟨x, hx⟩ := hdone cell (mem_members cell)
        refine ⟨x, hrest.sound.value cell x hx, ?_⟩
        rw [Table.valueAt?_table, hx]
        rfl

theorem evaluateAll_eq_ok_iff (h : before.AtRest sheet) (table : Table) :
    (sheet.evaluateAll before).1 = .ok table ↔ sheet.IsNaiveTable table := by
  rcases evaluateAll_cases h with ⟨found, hanswer, htable⟩ | ⟨fault, hanswer, hfault⟩
  · rw [hanswer, Except.ok.injEq]
    exact ⟨fun heq => heq ▸ htable, isNaiveTable_unique htable⟩
  · rw [hanswer]
    refine ⟨fun heq => ?_, fun htable => absurd hfault (not_isFirstNaiveFault htable fault)⟩
    cases heq

theorem values_eq_ok_iff {table : Table} :
    sheet.values = .ok table ↔ sheet.IsNaiveTable table :=
  evaluateAll_eq_ok_iff (Progress.atRest_fresh sheet) table

theorem evaluateAll_eq_error_iff (h : before.AtRest sheet) (fault : Fault) :
    (sheet.evaluateAll before).1 = .error fault ↔ sheet.IsFirstNaiveFault fault := by
  rcases evaluateAll_cases h with ⟨table, hanswer, htable⟩ | ⟨found, hanswer, hfault⟩
  · rw [hanswer]
    refine ⟨fun heq => ?_, fun hfault => absurd hfault (not_isFirstNaiveFault htable fault)⟩
    cases heq
  · rw [hanswer, Except.error.injEq]
    exact ⟨fun heq => heq ▸ hfault, isFirstNaiveFault_unique hfault⟩

end Sheet
end Worksheet
