/-
The faulty places of a list of rows.

A place is faulty if it is a row that is no list, or an item of a row that is no cell.  `IsReport`
asks of a list of faults that it holds each faulty place once and in reading order, with what the
check has against the row or the cell there, which leaves no choice of the list
(`IsReport.unique`).  The issues that a check of rows comes back with are its report
(`isReport_faults`, `issues_rowsOf`).
-/
import Worksheet.Proofs.Input.Cells

namespace Worksheet
namespace Sheet

open Issue (positionKey)

/-! ## Places -/

/-- A row, or a cell of a row, counted from zero. -/
structure Place where
  row : Nat
  column : Option Nat
  deriving DecidableEq

namespace Place

/-- The place as it stands in front of a report. -/
def text (place : Place) : String :=
  match place.column with
  | none => positionKey place.row
  | some column => positionKey place.row ++ "." ++ positionKey column

/-- Reading order.  A row that is reported as a whole has no cells that are. -/
def Before (place other : Place) : Prop :=
  place.row < other.row ∨ place.row = other.row ∧
    ∃ column next, place.column = some column ∧ other.column = some next ∧ column < next

end Place

/-- The rows that are no lists, and the items of rows that are no cells. -/
inductive Faulty (rows : List Value) : Place → Prop
  | row {row : Nat} {value : Value} (found : rows[row]? = some value)
      (noList : ∀ items, value ≠ .list items) : Faulty rows ⟨row, none⟩
  | cell {row column : Nat} {items : List Value} {value : Value}
      (found : rows[row]? = some (.list items)) (item : items[column]? = some value)
      (noCell : ¬ IsCell value) : Faulty rows ⟨row, some column⟩

/-- What the check of a row, or of a cell, has against the one in the place. -/
inductive Reason (checker : Checker) (rows : List Value) : Place → Problem → Prop
  | row {row : Nat} {value : Value} {problem : Problem} (found : rows[row]? = some value)
      (refused : rowCheck checker value = .error [⟨[], problem⟩]) :
      Reason checker rows ⟨row, none⟩ problem
  | cell {row column : Nat} {items : List Value} {value : Value} {problem : Problem}
      (found : rows[row]? = some (.list items)) (item : items[column]? = some value)
      (refused : cellCheck checker value = .error [⟨[], problem⟩]) :
      Reason checker rows ⟨row, some column⟩ problem

/-- Each faulty place once, in reading order and with the reason. -/
structure IsReport (checker : Checker) (rows : List Value) (found : List (Place × Problem)) :
    Prop where
  ordered : found.Pairwise fun fault other => fault.1.Before other.1
  exact : ∀ place, (∃ problem, (place, problem) ∈ found) ↔ Faulty rows place
  reason : ∀ place problem, (place, problem) ∈ found → Reason checker rows place problem

theorem Place.Before.asymm {place other : Place} (h : place.Before other) :
    ¬ other.Before place := by
  rintro (hrow | ⟨hrow, c, d, hc, hd, hlt⟩)
  · rcases h with hless | ⟨heq, -⟩ <;> omega
  · rcases h with hless | ⟨heq, c', d', hc', hd', hlt'⟩
    · omega
    · rw [hc] at hd'
      rw [hd] at hc'
      cases hc'
      cases hd'
      omega

theorem Reason.unique {checker : Checker} {rows : List Value} {place : Place}
    {problem other : Problem} (h : Reason checker rows place problem)
    (ho : Reason checker rows place other) : problem = other := by
  cases h with
  | row found refused =>
    cases ho with
    | row found' refused' =>
      cases found.symm.trans found'
      cases refused.symm.trans refused'
      rfl
  | cell found item refused =>
    cases ho with
    | cell found' item' refused' =>
      cases found.symm.trans found'
      cases item.symm.trans item'
      cases refused.symm.trans refused'
      rfl

section

variable {checker : Checker} {rows : List Value} {found other : List (Place × Problem)}

theorem IsReport.mem_of_mem (h : IsReport checker rows found) (ho : IsReport checker rows other)
    {place : Place} {problem : Problem} (hmem : (place, problem) ∈ found) :
    (place, problem) ∈ other := by
  obtain ⟨reported, hreported⟩ := (ho.exact place).mpr ((h.exact place).mp ⟨problem, hmem⟩)
  rw [(h.reason place problem hmem).unique (ho.reason place reported hreported)]
  exact hreported

theorem IsReport.unique (h : IsReport checker rows found) (ho : IsReport checker rows other) :
    found = other := by
  have hnodup : ∀ {faults : List (Place × Problem)}, IsReport checker rows faults → faults.Nodup :=
    fun hr => hr.ordered.imp fun hbefore heq => (heq ▸ hbefore).asymm (heq ▸ hbefore)
  have hperm : found.Perm other :=
    (List.perm_ext_iff_of_nodup (hnodup h) (hnodup ho)).mpr fun _ =>
      ⟨h.mem_of_mem ho, ho.mem_of_mem h⟩
  exact hperm.eq_of_pairwise (fun fault fault' _ _ hb hb' => absurd hb' hb.asymm) h.ordered
    ho.ordered

end

/-! ## The report of a check -/

def cellFaults (checker : Checker) (row : Nat) : Value × Nat → List (Place × Problem)
  | (value, column) =>
    (cellCheck checker value).issues.map fun issue => (⟨row, some column⟩, issue.problem)

def rowFaults (checker : Checker) : Value × Nat → List (Place × Problem)
  | (.list items, row) => items.zipIdx.flatMap (cellFaults checker row)
  | (value, row) => (rowCheck checker value).issues.map fun issue => (⟨row, none⟩, issue.problem)

def faults (checker : Checker) (rows : List Value) : List (Place × Problem) :=
  rows.zipIdx.flatMap (rowFaults checker)

def issueOf (fault : Place × Problem) : Issue :=
  ⟨positionKey fault.1.row :: fault.1.column.toList.map positionKey, fault.2⟩

theorem line_issueOf (fault : Place × Problem) :
    (issueOf fault).line = fault.1.text ++ ": " ++ fault.2.message := by
  obtain ⟨⟨row, column⟩, problem⟩ := fault
  cases column <;> rfl

theorem rowFaults_of_not_list {checker : Checker} {row : Nat} {value : Value} {problem : Problem}
    (h : ∀ items, value ≠ .list items)
    (hrefused : rowCheck checker value = .error [⟨[], problem⟩]) :
    rowFaults checker (value, row) = [(⟨row, none⟩, problem)] := by
  rw [rowFaults, hrefused]
  · rfl
  · exact h

section

variable {checker : Checker} (lawful : checker.Lawful) {row column : Nat} {items rows : List Value}
  {value : Value} {place : Place} {problem : Problem}

include lawful

/-- A row is a list, or is refused as a whole and is the one fault in it. -/
theorem row_cases (row : Nat) (value : Value) :
    (∃ items, value = .list items) ∨
    (∀ items, value ≠ .list items) ∧
      ∃ problem, rowCheck checker value = .error [⟨[], problem⟩] ∧
        rowFaults checker (value, row) = [(⟨row, none⟩, problem)] := by
  by_cases hlist : ∃ items, value = .list items
  · exact .inl hlist
  · have hnot : ∀ items, value ≠ .list items := fun items heq => hlist ⟨items, heq⟩
    obtain ⟨problem, hrefused⟩ := lawful.list_eq_error_of_not_list (cellCheck checker) hnot
    exact .inr ⟨hnot, problem, hrefused, rowFaults_of_not_list hnot hrefused⟩

theorem issues_cellCheck (row column : Nat) (value : Value) :
    ((cellCheck checker value).issues.map (Issue.under (positionKey column))).map
        (Issue.under (positionKey row)) = (cellFaults checker row (value, column)).map issueOf := by
  rw [cellFaults]
  by_cases hcell : IsCell value
  · rw [cellCheck_of_isCell lawful hcell]
    rfl
  · obtain ⟨problem, hrefused⟩ := exists_cellCheck_eq_error lawful hcell
    rw [hrefused]
    rfl

theorem issues_rowCheck (row : Nat) (value : Value) :
    (rowCheck checker value).issues.map (Issue.under (positionKey row)) =
      (rowFaults checker (value, row)).map issueOf := by
  rcases row_cases lawful row value with ⟨items, rfl⟩ | ⟨-, problem, hrefused, hfaults⟩
  · rw [rowCheck, lawful.issues_list, Verdict.itemIssues_map, List.map_flatMap, rowFaults,
      List.map_flatMap]
    congr 1
    funext item
    exact issues_cellCheck lawful row item.2 item.1
  · rw [hrefused, hfaults]
    rfl

/-- The issues of a check of rows are its faults, one for one. -/
theorem issues_rowsOf (rows : List Value) :
    (rowsOf (.list rows) checker).issues = (faults checker rows).map issueOf := by
  rw [rowsOf, gridCheck, lawful.issues_list, Verdict.itemIssues_map, faults, List.map_flatMap]
  congr 1
  funext item
  exact issues_rowCheck lawful item.2 item.1

theorem mem_cellFaults_iff : (place, problem) ∈ cellFaults checker row (value, column) ↔
    place = ⟨row, some column⟩ ∧ ¬ IsCell value ∧
      cellCheck checker value = .error [⟨[], problem⟩] := by
  rw [cellFaults]
  by_cases hcell : IsCell value
  · simp [cellCheck_of_isCell lawful hcell, Verdict.issues, hcell]
  · obtain ⟨other, hrefused⟩ := exists_cellCheck_eq_error lawful hcell
    simp [hrefused, Verdict.issues, hcell, eq_comm]

theorem mem_rowFaults_list_iff :
    (place, problem) ∈ rowFaults checker (.list items, row) ↔
      ∃ column value, items[column]? = some value ∧ place = ⟨row, some column⟩ ∧
        ¬ IsCell value ∧ cellCheck checker value = .error [⟨[], problem⟩] := by
  rw [rowFaults, List.mem_flatMap]
  constructor
  · rintro ⟨⟨value, column⟩, hmem, hfault⟩
    obtain ⟨hplace, hrefused⟩ := (mem_cellFaults_iff lawful).mp hfault
    exact ⟨column, value, List.mem_zipIdx_iff_getElem?.mp hmem, hplace, hrefused⟩
  · rintro ⟨column, value, hitem, hplace, hrefused⟩
    exact ⟨(value, column), List.mem_zipIdx_iff_getElem?.mpr hitem,
      (mem_cellFaults_iff lawful).mpr ⟨hplace, hrefused⟩⟩

theorem faulty_of_mem_faults (h : (place, problem) ∈ faults checker rows) :
    Faulty rows place ∧ Reason checker rows place problem := by
  obtain ⟨⟨value, row⟩, hmem, hfault⟩ := List.mem_flatMap.mp h
  have hrow : rows[row]? = some value := List.mem_zipIdx_iff_getElem?.mp hmem
  rcases row_cases lawful row value with ⟨items, rfl⟩ | ⟨hnot, other, hrefused, hfaults⟩
  · obtain ⟨column, item, hitem, rfl, hcell, hrefused⟩ :=
      (mem_rowFaults_list_iff lawful).mp hfault
    exact ⟨.cell hrow hitem hcell, .cell hrow hitem hrefused⟩
  · rw [hfaults, List.mem_singleton] at hfault
    cases hfault
    exact ⟨.row hrow hnot, .row hrow hrefused⟩

theorem exists_mem_faults (h : Faulty rows place) :
    ∃ problem, (place, problem) ∈ faults checker rows := by
  cases h with
  | @row row value hrow hnot =>
    obtain ⟨problem, hrefused⟩ := lawful.list_eq_error_of_not_list (cellCheck checker) hnot
    refine ⟨problem, List.mem_flatMap.mpr ⟨(value, row), List.mem_zipIdx_iff_getElem?.mpr hrow, ?_⟩⟩
    rw [rowFaults_of_not_list hnot hrefused]
    exact List.mem_singleton_self _
  | @cell row column items value hrow hitem hcell =>
    obtain ⟨problem, hrefused⟩ := exists_cellCheck_eq_error lawful hcell
    exact ⟨problem, List.mem_flatMap.mpr
      ⟨(.list items, row), List.mem_zipIdx_iff_getElem?.mpr hrow,
        (mem_rowFaults_list_iff lawful).mpr ⟨column, value, hitem, rfl, hcell, hrefused⟩⟩⟩

theorem row_of_mem_rowFaults {fault : Place × Problem}
    (h : fault ∈ rowFaults checker (value, row)) : fault.1.row = row := by
  rcases row_cases lawful row value with ⟨items, rfl⟩ | ⟨-, problem, -, hfaults⟩
  · obtain ⟨column, item, -, hplace, -⟩ := (mem_rowFaults_list_iff lawful).mp h
    rw [hplace]
  · rw [hfaults, List.mem_singleton] at h
    rw [h]

end

theorem pairwise_zipIdx {α : Type} (items : List α) :
    items.zipIdx.Pairwise fun item other => item.2 < other.2 := by
  have hrange : (items.zipIdx.map Prod.snd).Pairwise (· < ·) := by
    rw [List.zipIdx_map_snd]
    exact List.pairwise_lt_range'
  exact List.pairwise_map.mp hrange

section

variable {checker : Checker} (lawful : checker.Lawful)

include lawful

theorem pairwise_rowFaults (row : Nat) (value : Value) :
    (rowFaults checker (value, row)).Pairwise fun fault other => fault.1.Before other.1 := by
  rcases row_cases lawful row value with ⟨items, rfl⟩ | ⟨-, problem, -, hfaults⟩
  · rw [rowFaults, List.pairwise_flatMap]
    constructor
    · rintro ⟨item, column⟩ -
      rw [cellFaults]
      by_cases hcell : IsCell item
      · rw [cellCheck_of_isCell lawful hcell]
        exact .nil
      · obtain ⟨problem, hrefused⟩ := exists_cellCheck_eq_error lawful hcell
        rw [hrefused]
        exact List.pairwise_singleton _ _
    · refine (pairwise_zipIdx items).imp ?_
      rintro ⟨item, column⟩ ⟨item', column'⟩ hlt ⟨place, problem⟩ hfault ⟨place', problem'⟩ hfault'
      obtain ⟨rfl, -⟩ := (mem_cellFaults_iff lawful).mp hfault
      obtain ⟨rfl, -⟩ := (mem_cellFaults_iff lawful).mp hfault'
      exact .inr ⟨rfl, column, column', rfl, rfl, hlt⟩
  · rw [hfaults]
    exact List.pairwise_singleton _ _

theorem isReport_faults (rows : List Value) : IsReport checker rows (faults checker rows) where
  ordered := by
    rw [faults, List.pairwise_flatMap]
    constructor
    · rintro ⟨value, row⟩ -
      exact pairwise_rowFaults lawful row value
    · refine (pairwise_zipIdx rows).imp ?_
      rintro ⟨value, row⟩ ⟨value', row'⟩ hlt fault hfault other hother
      left
      rw [row_of_mem_rowFaults lawful hfault, row_of_mem_rowFaults lawful hother]
      exact hlt
  exact _ := ⟨fun ⟨_, hmem⟩ => (faulty_of_mem_faults lawful hmem).1, exists_mem_faults lawful⟩
  reason _ _ hmem := (faulty_of_mem_faults lawful hmem).2

end

end Sheet
end Worksheet
