/-
Two sheets, side by side.

Let each cell of a sheet correspond to at most one cell of another, and the other way round.  A
relation between outcomes that every reading of a cell keeps is kept by the evaluation of every
cell (`naive_related`).  Where the sheets are of one size and each cell corresponds to itself, their
tables, or their first faults, are then related as well (`IsNaiveTable.of_values`,
`akin_evaluateAll`).
-/
import Worksheet.Proofs.Locality
import Worksheet.Proofs.Input.Exact
import Mathlib.Data.List.Forall2

namespace Worksheet

/-- The two are one answer, or faults of one kind. -/
inductive Akin {α : Type} : Except Fault α → Except Fault α → Prop
  | ok (answer : α) : Akin (.ok answer) (.ok answer)
  | error {fault other : Fault} (name_eq : other.name = fault.name) :
      Akin (.error fault) (.error other)

/-- A value of the one is the value of the other. -/
def CarriesOver (outcome other : Outcome) : Prop := ∀ x, outcome = .ok x → other = .ok x

namespace Akin

variable {α : Type} {answer other : Except Fault α}

theorem eq_ok_iff (h : Akin answer other) (x : α) : answer = .ok x ↔ other = .ok x := by
  cases h with
  | ok answer => exact Iff.rfl
  | error name_eq => exact ⟨fun heq => (by cases heq), fun heq => (by cases heq)⟩

theorem exists_error (h : Akin answer other) {fault : Fault} (hfault : answer = .error fault) :
    ∃ fault', other = .error fault' ∧ fault'.name = fault.name := by
  cases h with
  | ok answer => cases hfault
  | error name_eq =>
    cases hfault
    exact ⟨_, rfl, name_eq⟩

end Akin

namespace Sheet

variable {sheet other : Sheet} {cell : sheet.Member} {cell' : other.Member}

theorem sameSize_of_lengths (h : sheet.rows.map List.length = other.rows.map List.length) :
    sheet.SameSize other := by
  constructor
  · have hlength := congrArg List.length h
    rw [List.length_map, List.length_map] at hlength
    exact hlength.symm
  · rw [columnCount, columnCount, length_headD, length_headD, h]

/-! ## Readings -/

theorem akin_combined (text text' : String) (operator : Sign) (x y : Binary64) :
    Akin (combined text operator x y) (combined text' operator x y) := by
  unfold combined
  by_cases hsafe : (operator.combine x y).isSafe = true
  · simp only [hsafe, if_true]
    exact .ok _
  · simp only [hsafe]
    exact .error rfl

theorem akin_binary {f : sheet.Member → Outcome} {g : other.Member → Outcome} (text text' : String)
    (operator : Sign) {left left' right right' : Operand}
    (hleft : Akin (sheet.interpretOperand f left) (other.interpretOperand g left'))
    (hright : Akin (sheet.interpretOperand f right) (other.interpretOperand g right')) :
    Akin (sheet.interpretFormula f text (.binary left operator right))
      (other.interpretFormula g text' (.binary left' operator right')) := by
  simp only [interpretFormula]
  generalize sheet.interpretOperand f left = outcome,
    other.interpretOperand g left' = outcome' at hleft
  cases hleft with
  | error hname => exact .error hname
  | ok x =>
    generalize sheet.interpretOperand f right = outcome,
      other.interpretOperand g right' = outcome' at hright
    cases hright with
    | error hname => exact .error hname
    | ok y => exact akin_combined text text' operator x y

/-! ## Evaluations -/

/-- What every reading of a cell keeps, on a path that the cell is not on, holds of the evaluations
of corresponding cells on corresponding paths. -/
theorem naive_related {M : sheet.Member → other.Member → Prop} (hM : Relator.BiUnique M)
    {R : Outcome → Outcome → Prop}
    (hcycle : ∀ cell cell', M cell cell' →
      R (.error (.circularReference cell.1.label)) (.error (.circularReference cell'.1.label)))
    (hstep : ∀ path cell cell' g, cell ∉ path → M cell cell' →
      (∀ target target', M target target' → R (sheet.naive (cell :: path) target) (g target')) →
      R (sheet.interpret (sheet.naive (cell :: path)) cell) (other.interpret g cell'))
    {path : List sheet.Member} {path' : List other.Member} (hpath : List.Forall₂ M path path')
    (hcell : M cell cell') : R (sheet.naive path cell) (other.naive path' cell') := by
  induction path, cell using naive.induct sheet generalizing path' cell' with
  | case1 path cell hin =>
    rw [naive_of_mem hin, naive_of_mem ((List.rel_mem hM hcell hpath).mp hin)]
    exact hcycle cell cell' hcell
  | case2 path cell hoff ih =>
    rw [naive_of_not_mem hoff,
      naive_of_not_mem fun hin => hoff ((List.rel_mem hM hcell hpath).mpr hin)]
    exact hstep path cell cell' _ hoff hcell fun target target' htarget =>
      ih target (.cons hcell hpath) htarget

/-- A cell corresponds to the cell in the same place. -/
abbrev SamePlace (cell : sheet.Member) (cell' : other.Member) : Prop := cell'.1 = cell.1

theorem biUnique_samePlace : Relator.BiUnique (@SamePlace sheet other) :=
  ⟨fun _ _ _ h h' => Subtype.ext (h.symm.trans h'), fun _ _ _ h h' => Subtype.ext (h.trans h'.symm)⟩

/-! ## Tables -/

/-- A table is that of a second sheet of the same size, if each of its values is found there. -/
theorem IsNaiveTable.of_values {table : Table} (h : sheet.IsNaiveTable table)
    (hsize : sheet.SameSize other)
    (hvalue : ∀ (cell : sheet.Member) (cell' : other.Member), cell'.1 = cell.1 →
      CarriesOver (sheet.naive [] cell) (other.naive [] cell')) : other.IsNaiveTable table := by
  refine ⟨⟨h.1.1.trans hsize.1.symm, fun row hrow => (h.1.2 row hrow).trans hsize.2.symm⟩,
    fun cell' => ?_⟩
  obtain ⟨x, hx, hentry⟩ := h.2 ⟨cell'.1, hsize.contains_iff.mp cell'.2⟩
  exact ⟨x, hvalue _ cell' rfl x hx, hentry⟩

/-- The answers about all cells are akin if the values of each cell are. -/
theorem akin_evaluateAll {before before' : Progress} (h : before.AtRest sheet)
    (h' : before'.AtRest other) (hsize : sheet.SameSize other)
    (hakin : ∀ (cell : sheet.Member) (cell' : other.Member), cell'.1 = cell.1 →
      Akin (sheet.naive [] cell) (other.naive [] cell')) :
    Akin (sheet.evaluateAll before).1 (other.evaluateAll before').1 := by
  rcases evaluateAll_cases h with ⟨table, hanswer, htable⟩ | ⟨fault, hanswer, cell, hfault, hbefore⟩
  · have htable' : other.IsNaiveTable table := htable.of_values hsize fun cell cell' hval x =>
      ((hakin cell cell' hval).eq_ok_iff x).mp
    rw [hanswer, (evaluateAll_eq_ok_iff h' table).mpr htable']
    exact .ok table
  · -- The first cell without a value is the same cell of the other sheet.
    obtain ⟨fault', hfault', hname⟩ :=
      (hakin cell ⟨cell.1, hsize.contains_iff.mpr cell.2⟩ rfl).exists_error hfault
    have hfirst : other.IsFirstNaiveFault fault' := by
      refine ⟨_, hfault', fun earlier' hearlier => ?_⟩
      obtain ⟨x, hx⟩ := hbefore ⟨earlier'.1, hsize.contains_iff.mp earlier'.2⟩ hearlier
      exact ⟨x, ((hakin _ earlier' rfl).eq_ok_iff x).mp hx⟩
    rw [hanswer, (evaluateAll_eq_error_iff h' fault').mpr hfirst]
    exact .error hname

end Sheet
end Worksheet
