/-
How deep an evaluation goes.

A call that is made while a cell is being evaluated begins with fewer cells that are not started
than the call for that cell: the cell itself has left the count, and nothing that the left operand
does puts a cell back into it.  So the nested calls of a request are at most one more than the
cells that were not started when it began, and with so much fuel, or with any more, it gives the
answer and the progress that it gives without a bound (`evaluation_ends`).
-/
import Worksheet.Proofs.Session
import Mathlib.Logic.Relation

namespace Worksheet

/-! ## The calls of a content -/

/-- An operand looks at the visit of the cell that it names, and only in its own progress. -/
theorem Summand.resolve_congr {visit other : Cell → Walk} {operand : Summand} {progress : Progress}
    (h : ∀ target, operand.source = .cell target → visit target progress = other target progress) :
    operand.resolve visit progress = operand.resolve other progress := by
  have hsource : operand.source.resolve visit progress = operand.source.resolve other progress := by
    cases hcases : operand.source with
    | value x => rfl
    | cell target => exact h target hcases
    | faulty fault => rfl
  unfold resolve
  rw [hsource]

namespace Content

/-- Evaluating a content from the progress `before` calls for a cell in some later progress.  The
right operand is come to only from a value of the left one. -/
inductive Calls (visit : Cell → Walk) (before : Progress) : Content → Cell → Progress → Prop
  | single {sign : Sign} {target : Cell} :
      Calls visit before (.single ⟨sign, .cell target⟩) target before
  | left {formula : String} {sign : Sign} {target : Cell} {operator : Sign} {right : Summand} :
      Calls visit before (.binary formula ⟨sign, .cell target⟩ operator right) target before
  | right {formula : String} {left : Summand} {operator sign : Sign} {target : Cell}
      {x : Binary64} {after : Progress} (first : left.resolve visit before = some (.ok x, after)) :
      Calls visit before (.binary formula left operator ⟨sign, .cell target⟩) target after

variable {visit other : Cell → Walk} {before middle : Progress} {content : Content} {target : Cell}

theorem Calls.mem_references (h : Calls visit before content target middle) :
    target ∈ content.references := by
  cases h with
  | single => exact List.mem_singleton_self target
  | left => exact List.mem_append_left _ (List.mem_singleton_self target)
  | right first => exact List.mem_append_right _ (List.mem_singleton_self target)

/-- What the left operand does before the right one is come to moves forward. -/
theorem Calls.advances (hforward : ∀ cell, (visit cell).Forward)
    (h : Calls visit before content target middle) : Progress.Advances before middle := by
  cases h with
  | single => exact Progress.Advances.refl before
  | left => exact Progress.Advances.refl before
  | right first => exact Summand.forward_resolve hforward _ _ _ _ first

/-- There are no other calls: visits that agree on these give the same result. -/
theorem resolve_congr (h : ∀ target middle, Calls visit before content target middle →
      visit target middle = other target middle) :
    content.resolve visit before = content.resolve other before := by
  cases content with
  | value x => rfl
  | faulty fault => rfl
  | single operand =>
    obtain ⟨sign, source⟩ := operand
    refine Summand.resolve_congr fun target hsource => ?_
    cases hsource
    exact h target before .single
  | binary formula left operator right =>
    have hleft : left.resolve visit before = left.resolve other before := by
      obtain ⟨sign, source⟩ := left
      refine Summand.resolve_congr fun target hsource => ?_
      cases hsource
      exact h target before .left
    simp only [resolve]
    rw [← hleft]
    split
    · rfl
    · rfl
    · rename_i x after hfirst
      have hright : right.resolve visit after = right.resolve other after := by
        obtain ⟨sign, source⟩ := right
        refine Summand.resolve_congr fun target hsource => ?_
        cases hsource
        exact h target after (.right hfirst)
      rw [hright]

end Content

namespace Sheet

variable {sheet : Sheet} {progress after : Progress} {cell : Cell} {fuel : Nat}

/-! ## The calls of a cell -/

/-- One call, where `visit` makes the calls inside it. -/
def level (sheet : Sheet) (visit : Cell → Walk) (cell : Cell) : Walk := fun progress =>
  match progress cell with
  | .done x => some (.ok x, progress)
  | .inProgress => some (.error (.circularReference cell.label), progress)
  | .notStarted =>
    conclude cell ((sheet.content cell).resolve visit (progress.set cell .inProgress))

theorem visit_succ (sheet : Sheet) (fuel : Nat) (cell : Cell) :
    sheet.visit (fuel + 1) cell = sheet.level (sheet.visit fuel) cell := rfl

/-- Calls from inside a cell find fewer cells that are not started. -/
theorem pending_lt_of_content {visit : Cell → Walk} (hforward : ∀ cell, (visit cell).Forward)
    (hin : sheet.Contains cell) (hstart : progress cell = .notStarted) {target : Cell}
    (h : Content.Calls visit (progress.set cell .inProgress) (sheet.content cell) target after) :
    Progress.pending sheet after < Progress.pending sheet progress := by
  have hkept : Progress.pending sheet after ≤ Progress.pending sheet _ :=
    Progress.pending_le_of_advances (h.advances hforward)
  have hless : Progress.pending sheet (progress.set cell .inProgress) <
      Progress.pending sheet progress := Progress.pending_set_lt hin hstart nofun
  exact Nat.lt_of_le_of_lt hkept hless

theorem level_congr {visit other : Cell → Walk}
    (h : progress cell = .notStarted → ∀ target middle,
      Content.Calls visit (progress.set cell .inProgress) (sheet.content cell) target middle →
        visit target middle = other target middle) :
    sheet.level visit cell progress = sheet.level other cell progress := by
  unfold level
  split
  · rfl
  · rfl
  · rename_i hstart
    rw [Content.resolve_congr (h hstart)]

/-- All fuel that suffices gives the same result. -/
theorem visit_eq_visit {other : Nat} (hin : sheet.Contains cell)
    (h : Progress.pending sheet progress < fuel) (ho : Progress.pending sheet progress < other) :
    sheet.visit fuel cell progress = sheet.visit other cell progress := by
  induction fuel generalizing other cell progress with
  | zero => exact absurd h (Nat.not_lt_zero _)
  | succ fuel ih =>
    cases other with
    | zero => exact absurd ho (Nat.not_lt_zero _)
    | succ other =>
      rw [visit_succ, visit_succ]
      refine level_congr fun hstart target middle hcalls => ?_
      have hless := pending_lt_of_content (sheet.forward_visit fuel) hin hstart hcalls
      exact ih (contains_of_mem_references hcalls.mem_references) (by omega) (by omega)

theorem pending_le (sheet : Sheet) (progress : Progress) :
    Progress.pending sheet progress ≤ sheet.rowCount * sheet.columnCount := by
  rw [← length_cells]
  exact Progress.pending_le_length sheet progress

theorem pending_lt_fuel (sheet : Sheet) (progress : Progress) :
    Progress.pending sheet progress < sheet.fuel := Nat.lt_succ_of_le (sheet.pending_le progress)

theorem visit_eq_resolve (hin : sheet.Contains cell)
    (h : Progress.pending sheet progress < fuel) :
    sheet.visit fuel cell progress = some (sheet.resolve cell hin progress) := by
  have hfuel := sheet.pending_lt_fuel progress
  rw [visit_eq_visit hin h hfuel, visit_eq_some_resolve hin]

/-- The evaluation of a cell is one level of the recursion, with the evaluation itself inside. -/
theorem visit_eq_level (hin : sheet.Contains cell) (progress : Progress) :
    sheet.visit sheet.fuel cell progress = sheet.level (sheet.visit sheet.fuel) cell progress := by
  have hfuel := sheet.pending_lt_fuel progress
  rw [visit_eq_visit hin hfuel (Nat.lt_succ_of_lt hfuel), visit_succ]

/-! ## Nested calls -/

/-- The evaluation of a cell, from the progress in which it begins. -/
structure Call (sheet : Sheet) where
  cell : sheet.Member
  progress : Progress

/-- A call for a cell that is not started makes another call itself. -/
structure Calls (caller call : sheet.Call) : Prop where
  notStarted : caller.progress caller.cell = .notStarted
  calls : Content.Calls (sheet.visit sheet.fuel) (caller.progress.set caller.cell .inProgress)
    (sheet.content caller.cell) call.cell call.progress

theorem Calls.pending_lt {caller call : sheet.Call} (h : Calls caller call) :
    Progress.pending sheet call.progress < Progress.pending sheet caller.progress :=
  pending_lt_of_content (sheet.forward_visit sheet.fuel) caller.cell.2 h.notStarted h.calls

theorem pending_lt_of_transGen {caller call : sheet.Call}
    (h : Relation.TransGen Calls caller call) :
    Progress.pending sheet call.progress < Progress.pending sheet caller.progress := by
  induction h with
  | single hcalls => exact hcalls.pending_lt
  | tail _ hcalls ih => exact Nat.lt_trans hcalls.pending_lt ih

/-- Calls that are under way at one time, the innermost first. -/
inductive Stack (sheet : Sheet) (opens : sheet.Call → Prop) : List sheet.Call → Prop
  | opened {call : sheet.Call} (first : opens call) : Stack sheet opens [call]
  | nested {call caller : sheet.Call} {rest : List sheet.Call}
      (outer : Stack sheet opens (caller :: rest)) (calls : Calls caller call) :
      Stack sheet opens (call :: caller :: rest)

/-- Each call on top of the first has taken one cell out of those that are not started. -/
theorem Stack.pending_add_length_le {opens : sheet.Call → Prop} {n : Nat}
    (hopens : ∀ call, opens call → Progress.pending sheet call.progress ≤ n) {call : sheet.Call}
    {rest : List sheet.Call} (h : Stack sheet opens (call :: rest)) :
    Progress.pending sheet call.progress + rest.length ≤ n := by
  induction rest generalizing call with
  | nil =>
    cases h with
    | opened hfirst => exact hopens call hfirst
  | cons caller rest ih =>
    cases h with
    | nested houter hcalls =>
      have houter := ih houter
      have hless := hcalls.pending_lt
      rw [List.length_cons]
      omega

theorem Stack.length_le {opens : sheet.Call → Prop} {n : Nat}
    (hopens : ∀ call, opens call → Progress.pending sheet call.progress ≤ n)
    {stack : List sheet.Call} (h : Stack sheet opens stack) : stack.length ≤ n + 1 := by
  cases stack with
  | nil => exact Nat.zero_le _
  | cons call rest =>
    have hbound := h.pending_add_length_le hopens
    rw [List.length_cons]
    omega

/-! ## The calls of a request -/

theorem advances_resolve (cell : sheet.Member) (progress : Progress) :
    Progress.Advances progress (sheet.resolve cell cell.2 progress).2 :=
  sheet.forward_visit sheet.fuel cell progress _ _ (visit_eq_some_resolve cell.2 progress)

theorem advances_resolveEach (cells : List sheet.Member) (progress : Progress) :
    Progress.Advances progress (sheet.resolveEach cells progress).2 := by
  induction cells generalizing progress with
  | nil => exact Progress.Advances.refl progress
  | cons cell rest ih =>
    have hfirst := advances_resolve cell progress
    simp only [resolveEach]
    split
    · rename_i x after hresolve
      rw [hresolve] at hfirst
      exact hfirst.trans (ih after)
    · rename_i fault after hresolve
      rw [hresolve] at hfirst
      exact hfirst

end Sheet

/-- The calls that a request makes itself.  A request for all cells comes to a cell once the cells
before it have values. -/
inductive Evaluator.Request.Opens (sheet : Sheet) (progress : Progress) :
    Evaluator.Request → sheet.Call → Prop
  | all {first last : List sheet.Member} {cell : sheet.Member} {after : Progress}
      (split : sheet.members = first ++ cell :: last)
      (done : sheet.resolveEach first progress = (.ok (), after)) :
      Opens sheet progress .evaluateAll ⟨cell, after⟩
  | position {position : Position} {cell : sheet.Member}
      (found : sheet.memberAt? position = some cell) :
      Opens sheet progress (.evaluateCell position) ⟨cell, progress⟩
  | label {label : String} {cell : sheet.Member} (found : sheet.atLabel label = .ok cell) :
      Opens sheet progress (.evaluateReference label) ⟨cell, progress⟩

namespace Sheet

variable {sheet : Sheet} {progress : Progress} {fuel : Nat}

open Evaluator in
theorem pending_le_of_opens {request : Request} {call : sheet.Call}
    (h : request.Opens sheet progress call) :
    Progress.pending sheet call.progress ≤ Progress.pending sheet progress := by
  cases h with
  | @all first _ _ after split done =>
    have hmove := advances_resolveEach first progress
    rw [done] at hmove
    exact Progress.pending_le_of_advances hmove
  | position found => exact Nat.le_refl _
  | label found => exact Nat.le_refl _

/-! ## Requests with a bound on the depth -/

/-- As `resolveEach`, or none if the fuel runs out. -/
def resolveEachWithin (sheet : Sheet) (fuel : Nat) :
    List sheet.Member → Progress → Option (Except Fault Unit × Progress)
  | [], progress => some (.ok (), progress)
  | cell :: rest, progress =>
    match sheet.visit fuel cell progress with
    | none => none
    | some (.ok _, after) => sheet.resolveEachWithin fuel rest after
    | some (.error fault, after) => some (.error fault, after)

def evaluateWithin (sheet : Sheet) (fuel : Nat) (cell : Except Fault sheet.Member)
    (progress : Progress) : Option (Outcome × Progress) :=
  match cell with
  | .ok cell => (sheet.visit fuel cell progress).map close
  | .error fault => some (close (.error fault, progress))

def evaluateAllWithin (sheet : Sheet) (fuel : Nat) (progress : Progress) :
    Option (Except Fault Table × Progress) :=
  (sheet.resolveEachWithin fuel sheet.members progress).map fun result =>
    match close result with
    | (.ok (), after) => (.ok (sheet.table after), after)
    | (.error fault, after) => (.error fault, after)

theorem resolveEachWithin_eq (h : Progress.pending sheet progress < fuel)
    (cells : List sheet.Member) :
    sheet.resolveEachWithin fuel cells progress = some (sheet.resolveEach cells progress) := by
  induction cells generalizing progress with
  | nil => rfl
  | cons cell rest ih =>
    have hmove : Progress.pending sheet _ ≤ Progress.pending sheet progress :=
      Progress.pending_le_of_advances (advances_resolve cell progress)
    rw [resolveEachWithin, resolveEach, visit_eq_resolve cell.2 h]
    cases hresolve : sheet.resolve cell cell.2 progress with
    | mk outcome after =>
      rw [hresolve] at hmove
      cases outcome with
      | ok x => exact ih (Nat.lt_of_le_of_lt hmove h)
      | error fault => rfl

theorem evaluateWithin_eq (h : Progress.pending sheet progress < fuel)
    (cell : Except Fault sheet.Member) :
    sheet.evaluateWithin fuel cell progress = some (sheet.evaluate cell progress) := by
  cases cell with
  | error fault => rfl
  | ok cell => rw [evaluateWithin, visit_eq_resolve cell.2 h, Option.map_some, evaluate]

theorem evaluateAllWithin_eq (h : Progress.pending sheet progress < fuel) :
    sheet.evaluateAllWithin fuel progress = some (sheet.evaluateAll progress) := by
  rw [evaluateAllWithin, resolveEachWithin_eq h]
  rfl

open Evaluator in
/-- From every progress, cyclic references or not: a call inside the call for a cell finds fewer
cells that are not started, the calls of a request nest no deeper than one more than the number of
those cells, and with so much fuel or more the answer and the progress are those of the recursion
without fuel. -/
theorem evaluation_ends (sheet : Sheet) (progress : Progress) :
    (∀ (cell : sheet.Member) before,
      sheet.visit sheet.fuel cell before = sheet.level (sheet.visit sheet.fuel) cell before) ∧
    (∀ caller call : sheet.Call, Relation.TransGen Calls caller call →
      Progress.pending sheet call.progress < Progress.pending sheet caller.progress) ∧
    (∀ (request : Request) stack, sheet.Stack (request.Opens sheet progress) stack →
      stack.length ≤ Progress.pending sheet progress + 1) ∧
    Progress.pending sheet progress + 1 ≤ sheet.rowCount * sheet.columnCount + 1 ∧
    ∀ fuel, Progress.pending sheet progress + 1 ≤ fuel →
      sheet.evaluateAllWithin fuel progress = some (sheet.evaluateAll progress) ∧
      (∀ position, sheet.evaluateWithin fuel (sheet.atPosition position) progress =
        some (sheet.evaluateCell position progress)) ∧
      ∀ label, sheet.evaluateWithin fuel (sheet.atLabel label) progress =
        some (sheet.evaluateReference label progress) := by
  refine ⟨fun cell => visit_eq_level cell.2, fun _ _ => pending_lt_of_transGen,
    fun request stack => Stack.length_le fun _ => pending_le_of_opens,
    Nat.succ_le_succ (sheet.pending_le progress), fun fuel hfuel => ?_⟩
  exact ⟨evaluateAllWithin_eq hfuel, fun position => evaluateWithin_eq hfuel _,
    fun label => evaluateWithin_eq hfuel _⟩

end Sheet
end Worksheet
