/-
The table of a sheet is the solution of its equations.

Where the references of a sheet form no cycle, the cells can be put in an order in which
each comes after those it refers to.  Along that order the equations have exactly one
solution in whole numbers (`Regular.exists_solution`), and evaluation finds it unless a cell
with two operands leaves the range of the safe numbers.
-/
import Worksheet.Proofs.Equation
import Worksheet.Proofs.Evaluator
import Mathlib.Data.Fintype.EquivFin
import Mathlib.Data.Fintype.OfMap

namespace Worksheet

open Binary64 Relation

namespace Sheet

/-- Each text reads well and mentions only cells of the sheet, and no cell needs itself. -/
structure Regular (sheet : Sheet) : Prop where
  wellFormed : ∀ cell, sheet.WellFormed cell
  inRange : ∀ cell, sheet.InRange cell
  acyclic : ∀ cell, ¬ TransGen sheet.Refers cell cell

variable {sheet : Sheet} {v w : sheet.Member → Int}

instance finite_member (sheet : Sheet) : Finite sheet.Member := by
  have hfintype : Fintype sheet.Member := Fintype.ofList sheet.members mem_members
  exact Finite.of_fintype sheet.Member

/-- Without a cycle, references are followed only finitely often. -/
theorem wellFounded_of_acyclic (h : ∀ cell, ¬ TransGen sheet.Refers cell cell) :
    WellFounded fun target cell => sheet.Refers cell target := by
  have htrans : IsTrans sheet.Member fun target cell => TransGen sheet.Refers cell target :=
    ⟨fun _ _ _ hab hbc => hbc.trans hab⟩
  have hirrefl : Std.Irrefl fun target cell : sheet.Member =>
      TransGen sheet.Refers cell target := ⟨h⟩
  have hwf : WellFounded fun target cell : sheet.Member => TransGen sheet.Refers cell target :=
    Finite.wellFounded_of_trans_of_irrefl _
  exact Subrelation.wf (fun hstep => TransGen.single hstep) hwf

/-! ## The solution -/

theorem Solves.unique (h : ∀ cell, ¬ TransGen sheet.Refers cell cell) (hv : sheet.Solves v)
    (hw : sheet.Solves w) : v = w := by
  funext cell
  induction cell using (wellFounded_of_acyclic h).induction with
  | _ cell ih =>
    have hcell : sheet.Yields w cell (v cell) := (hv cell).congr ih
    exact hcell.unique (hw cell)

theorem Regular.exists_solves (h : sheet.Regular) : ∃ v, sheet.Solves v := by
  classical
  have hyields : ∀ u : sheet.Member → Int, ∀ cell, ∃ n, sheet.Yields u cell n :=
    fun u cell => exists_yields (h.wellFormed cell) (h.inRange cell) u
  choose value hvalue using hyields
  have hwf := wellFounded_of_acyclic h.acyclic
  -- What a cell does not refer to has no part in its value, and counts as zero.
  let step (cell : sheet.Member) (known : ∀ target, sheet.Refers cell target → Int) : Int :=
    value (fun target => if hr : sheet.Refers cell target then known target hr else 0) cell
  refine ⟨hwf.fix step, fun cell => ?_⟩
  rw [hwf.fix_eq]
  refine (hvalue _ cell).congr fun target hr => ?_
  rw [dif_pos hr]

theorem Regular.exists_solution (h : sheet.Regular) :
    ∃ v, sheet.Solves v ∧ ∀ w, sheet.Solves w → w = v := by
  obtain ⟨v, hv⟩ := h.exists_solves
  exact ⟨v, hv, fun w hw => hw.unique h.acyclic hv⟩

/-! ## When all cells have values -/

/-- On a path that its references never meet, a cell has its value from the solution. -/
theorem Solves.naive_eq_ok (hv : sheet.Solves v)
    (hacyclic : ∀ cell, ¬ TransGen sheet.Refers cell cell)
    (hbound : ∀ cell, sheet.IsBinary cell → (v cell).natAbs ≤ maxSafe)
    {path : List sheet.Member} {cell : sheet.Member}
    (hoff : ∀ target, sheet.Reaches cell target → target ∉ path) :
    ∃ x, sheet.naive path cell = .ok x ∧ Represents x (v cell) := by
  induction path, cell using naive.induct sheet with
  | case1 path cell hmem => exact absurd hmem (hoff cell ReflTransGen.refl)
  | case2 path cell hnot ih =>
    rw [naive_of_not_mem hnot]
    refine eq_ok_of_yields (hv cell) (hbound cell) fun target hr => ih target ?_
    -- The references of the target meet neither the old path nor, without a cycle, the cell.
    intro last hlast hmem
    rcases List.mem_cons.mp hmem with rfl | hpath
    · exact hacyclic last (TransGen.head' hr hlast)
    · exact hoff last (ReflTransGen.head hr hlast) hpath

theorem regular_of_naive_eq_ok (h : ∀ cell, ∃ x, sheet.naive [] cell = .ok x) :
    sheet.Regular := by
  constructor
  · intro cell
    obtain ⟨x, hx⟩ := h cell
    exact wellFormed_of_eq_ok (interpret_of_naive_eq_ok hx)
  · intro cell position hm
    obtain ⟨x, hx⟩ := h cell
    obtain ⟨target, hfound, -⟩ := refers_of_mentions (interpret_of_naive_eq_ok hx) hm
    exact ⟨target, hfound⟩
  · intro cell
    obtain ⟨x, hx⟩ := h cell
    exact not_cyclic_of_naive_eq_ok hx

theorem solves_amount (h : ∀ cell, ∃ x, sheet.naive [] cell = .ok x) :
    sheet.Solves sheet.amount := by
  intro cell
  obtain ⟨x, hx⟩ := h cell
  exact (naive_exact hx).2

/-- All cells have values exactly if the sheet is regular and its solution stays in range. -/
theorem naive_total_iff :
    (∀ cell, ∃ x, sheet.naive [] cell = .ok x) ↔ sheet.Regular ∧
      ∀ v, sheet.Solves v → ∀ cell, sheet.IsBinary cell → (v cell).natAbs ≤ maxSafe := by
  constructor
  · intro h
    have hregular := regular_of_naive_eq_ok h
    refine ⟨hregular, fun v hv cell _ => ?_⟩
    rw [hv.unique hregular.acyclic (solves_amount h)]
    obtain ⟨x, hx⟩ := h cell
    exact (naive_exact hx).1.bound
  · rintro ⟨hregular, hbound⟩ cell
    obtain ⟨v, hv⟩ := hregular.exists_solves
    have hoff : ∀ target, sheet.Reaches cell target → target ∉ [] :=
      fun _ _ => List.not_mem_nil
    obtain ⟨x, hx, -⟩ := hv.naive_eq_ok hregular.acyclic (hbound v hv) hoff
    exact ⟨x, hx⟩

theorem exists_isNaiveTable_iff :
    (∃ table, sheet.IsNaiveTable table) ↔ ∀ cell, ∃ x, sheet.naive [] cell = .ok x := by
  constructor
  · rintro ⟨table, htable⟩ cell
    obtain ⟨x, hx, -⟩ := htable.2 cell
    exact ⟨x, hx⟩
  · intro h
    rcases evaluateAll_cases (Progress.atRest_fresh sheet) with
      ⟨table, -, htable⟩ | ⟨fault, -, cell, hfault, -⟩
    · exact ⟨table, htable⟩
    · obtain ⟨x, hx⟩ := h cell
      rw [hx] at hfault
      cases hfault

theorem exists_values_iff :
    (∃ table, sheet.values = .ok table) ↔ ∀ cell, ∃ x, sheet.naive [] cell = .ok x := by
  simp only [values_eq_ok_iff]
  exact exists_isNaiveTable_iff

/-- A cell that is referred to twice over is no cycle. -/
example : (⟨[["=B1+C1", "=C1", "2"]], by decide⟩ : Sheet).values =
    .ok [[.ofInt 4, .ofInt 2, .ofInt 2]] := by decide +kernel

end Sheet

namespace Evaluator

/-- A request for all cells has a table exactly if the sheet is regular and its solution
stays in range, and the table is then the solution. -/
theorem evaluateAll_solution (host host' ended : Host) (logger : Logger) (id : String)
    (sheet : Sheet) :
    (sheet.Regular → ∃ v, sheet.Solves v ∧ ∀ w, sheet.Solves w → w = v) ∧
    ((∃ table, ((start host logger id sheet).evaluateAll host' ended).1 = .ok table) ↔
      sheet.Regular ∧
        ∀ v, sheet.Solves v → ∀ cell, sheet.IsBinary cell → (v cell).natAbs ≤ maxSafe) ∧
    ∀ table, ((start host logger id sheet).evaluateAll host' ended).1 = .ok table →
      Table.HasShape sheet table ∧
      ∃ v, sheet.Solves v ∧ (∀ w, sheet.Solves w → w = v) ∧
        ∀ cell : sheet.Member, ∃ x, Table.valueAt? table cell = some x ∧
          x.toInt? = some (v cell) ∧ x.isSafe = true ∧ x ≠ zero true := by
  have hanswer : ∀ table, ((start host logger id sheet).evaluateAll host' ended).1 = .ok table ↔
      sheet.IsNaiveTable table :=
    evaluateAll_eq_ok_iff host' ended (atRest_start host logger id sheet)
  refine ⟨Sheet.Regular.exists_solution, ?_, fun table htable => ?_⟩
  · simp only [hanswer]
    rw [Sheet.exists_isNaiveTable_iff, Sheet.naive_total_iff]
  · have hnaive := (hanswer table).mp htable
    have hvalues := Sheet.exists_isNaiveTable_iff.mp ⟨table, hnaive⟩
    have hregular := Sheet.regular_of_naive_eq_ok hvalues
    have hsolves := Sheet.solves_amount hvalues
    refine ⟨hnaive.1, sheet.amount, hsolves,
      fun w hw => hw.unique hregular.acyclic hsolves, fun cell => ?_⟩
    obtain ⟨x, hx, hentry⟩ := hnaive.2 cell
    have hexact := (Sheet.naive_exact hx).1
    exact ⟨x, hentry, hexact.toInt?_eq, hexact.isSafe_eq, hexact.ne_negative_zero⟩

end Evaluator
end Worksheet
