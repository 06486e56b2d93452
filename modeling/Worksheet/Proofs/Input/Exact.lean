/-
What becomes of a value that is handed in as a sheet.

`read_exact` leaves no case out: a grid with rows of one length is taken, and an evaluation can
start from it; what is no list is one fault; of a list the faulty places are reported, all of
them; and only where there is none are the lengths of the rows compared.  The wording of a fault is
the checker's, and nothing else depends on which checker it is.
-/
import Worksheet.Proofs.Check.Standard
import Worksheet.Proofs.Input.Report
import Worksheet.Proofs.Session
import Mathlib.Data.Nat.Find

namespace Worksheet
namespace Sheet

/-! ## Rows of different lengths -/

/-- The row with the number `n` is the first that is not as long as the first row. -/
structure FirstUneven {α : Type} (grid : List (List α)) (n length : Nat) : Prop where
  here : (grid.map List.length)[n]? = some length
  differs : length ≠ (grid.headD []).length
  before : ∀ m < n, (grid.map List.length)[m]? = some (grid.headD []).length

theorem firstRagged_eq_some {width next n length : Nat} {rows : List (List String)}
    (here : (rows.map List.length)[n]? = some length) (differs : length ≠ width)
    (before : ∀ m < n, (rows.map List.length)[m]? = some width) :
    firstRagged width next rows = some (next + n, length) := by
  induction rows generalizing next n with
  | nil => cases here
  | cons first rest ih =>
    rw [firstRagged]
    cases n with
    | zero =>
      have hfirst : first.length = length := Option.some.inj here
      rw [hfirst, if_neg differs]
      rfl
    | succ n =>
      have hfirst : first.length = width := Option.some.inj (before 0 (Nat.succ_pos n))
      rw [if_pos hfirst, ih (n := n) here fun m hm => before (m + 1) (Nat.succ_lt_succ hm),
        Nat.add_right_comm]
      rfl

theorem ofRows_eq_ok_iff {rows : List (List String)} {sheet : Sheet} :
    ofRows rows = .ok sheet ↔ sheet.rows = rows := by
  constructor
  · intro h
    unfold ofRows at h
    split at h
    · cases h
      rfl
    · cases h
  · rintro rfl
    exact ofRows_rows sheet

theorem ofRows_of_firstUneven {n length : Nat} {rows : List (List String)}
    (h : FirstUneven rows n length) :
    ofRows rows =
      .error (.raggedRows (.ofNat n) (.ofNat length) (.ofNat (rows.headD []).length)) := by
  have hragged : firstRagged (rows.headD []).length 0 rows = some (n, length) := by
    rw [firstRagged_eq_some h.here h.differs h.before, Nat.zero_add]
  unfold ofRows
  split
  · rename_i hnone
    rw [hragged] at hnone
    cases hnone
  · rename_i hsome
    rw [hragged] at hsome
    cases hsome
    rfl

/-! ## Grids -/

/-- The value is a list of rows of cells. -/
structure IsGrid (value : Value) (grid : List (List Value)) : Prop where
  value_eq : value = .list (grid.map .list)
  isCell : ∀ row ∈ grid, ∀ item ∈ row, IsCell item

/-- All rows are as long as the first. -/
def Even {α : Type} (grid : List (List α)) : Prop :=
  ∀ row ∈ grid, row.length = (grid.headD []).length

section

variable {grid : List (List Value)} {texts : List (List String)}

theorem exists_spelled_row {row : List Value} (h : ∀ item ∈ row, IsCell item) :
    ∃ texts, List.Forall₂ Spelled row texts := by
  induction row with
  | nil => exact ⟨[], .nil⟩
  | cons item rest ih =>
    obtain ⟨text, htext⟩ := h item List.mem_cons_self
    obtain ⟨texts, htexts⟩ := ih fun other ho => h other (List.mem_cons_of_mem item ho)
    exact ⟨text :: texts, .cons htext htexts⟩

theorem exists_spelled (h : ∀ row ∈ grid, ∀ item ∈ row, IsCell item) :
    ∃ texts, List.Forall₂ (List.Forall₂ Spelled) grid texts := by
  induction grid with
  | nil => exact ⟨[], .nil⟩
  | cons row rest ih =>
    obtain ⟨text, htext⟩ := exists_spelled_row (h row List.mem_cons_self)
    obtain ⟨texts, htexts⟩ := ih fun other ho => h other (List.mem_cons_of_mem row ho)
    exact ⟨text :: texts, .cons htext htexts⟩

theorem isCell_of_spelled (h : List.Forall₂ (List.Forall₂ Spelled) grid texts) :
    ∀ row ∈ grid, ∀ item ∈ row, IsCell item := by
  intro row hrow item hitem
  obtain ⟨n, hn, rfl⟩ := List.mem_iff_getElem.mp hrow
  have hspelled := h.get hn (h.length_eq ▸ hn)
  obtain ⟨m, hm, rfl⟩ := List.mem_iff_getElem.mp hitem
  exact ⟨_, hspelled.get hm (hspelled.length_eq ▸ hm)⟩

end

section

variable {α β : Type} {grid : List (List α)} {other : List (List β)}

/-- Grids that are related item by item have one shape. -/
theorem lengths_of_forall₂ {R : α → β → Prop} (h : List.Forall₂ (List.Forall₂ R) grid other) :
    grid.map List.length = other.map List.length := by
  induction h with
  | nil => rfl
  | cons hrow _ ih => rw [List.map_cons, List.map_cons, hrow.length_eq, ih]

theorem length_headD (grid : List (List α)) :
    (grid.headD []).length = (grid.map List.length).headD 0 := by
  cases grid <;> rfl

theorem even_iff : Even grid ↔
    ∀ length ∈ grid.map List.length, length = (grid.map List.length).headD 0 := by
  rw [List.forall_mem_map, ← length_headD]
  rfl

theorem Even.of_lengths (h : Even grid) (hlengths : grid.map List.length = other.map List.length) :
    Even other := by
  rw [even_iff, ← hlengths]
  exact even_iff.mp h

theorem FirstUneven.of_lengths {n length : Nat} (h : FirstUneven grid n length)
    (hlengths : grid.map List.length = other.map List.length) : FirstUneven other n length := by
  have hwidth : (other.headD []).length = (grid.headD []).length := by
    rw [length_headD, length_headD, hlengths]
  refine ⟨hlengths ▸ h.here, hwidth ▸ h.differs, fun m hm => ?_⟩
  rw [hwidth, ← hlengths]
  exact h.before m hm

end

theorem exists_firstUneven {α : Type} {grid : List (List α)} (h : ¬ Even grid) :
    ∃ n length, FirstUneven grid n length := by
  classical
  have hdiffers : ∃ n length : Nat, (grid.map List.length)[n]? = some length ∧
      length ≠ (grid.headD []).length := by
    simp only [Even, not_forall] at h
    obtain ⟨row, hrow, hne⟩ := h
    obtain ⟨n, hn⟩ := List.mem_iff_getElem?.mp hrow
    exact ⟨n, row.length, by rw [List.getElem?_map, hn]; rfl, hne⟩
  obtain ⟨length, here, differs⟩ := Nat.find_spec hdiffers
  refine ⟨Nat.find hdiffers, length, here, differs, fun m hm => ?_⟩
  have hlt : m < (grid.map List.length).length :=
    Nat.lt_trans hm (List.getElem?_eq_some_iff.mp here).1
  have hsame := Nat.find_min hdiffers hm
  simp only [List.getElem?_eq_getElem hlt, Option.some.injEq, exists_eq_left', not_not] at hsame ⊢
  exact hsame

/-- A list without a faulty place is a grid. -/
theorem exists_isGrid {rows : List Value} (h : ∀ place, ¬ Faulty rows place) :
    ∃ grid, IsGrid (.list rows) grid := by
  have hlist : ∀ value ∈ rows, ∃ items, value = .list items ∧ ∀ item ∈ items, IsCell item := by
    intro value hvalue
    obtain ⟨n, hn⟩ := List.mem_iff_getElem?.mp hvalue
    by_cases hitems : ∃ items, value = .list items
    · obtain ⟨items, rfl⟩ := hitems
      refine ⟨items, rfl, fun item hitem => ?_⟩
      obtain ⟨m, hm⟩ := List.mem_iff_getElem?.mp hitem
      exact Classical.byContradiction fun hcell => h _ (.cell hn hm hcell)
    · exact absurd (.row hn fun items heq => hitems ⟨items, heq⟩) (h _)
  clear h
  induction rows with
  | nil => exact ⟨[], rfl, fun row hrow => absurd hrow List.not_mem_nil⟩
  | cons value rest ih =>
    obtain ⟨grid, hgrid, hcells⟩ := ih fun other ho => hlist other (List.mem_cons_of_mem value ho)
    obtain ⟨items, rfl, hitems⟩ := hlist value List.mem_cons_self
    cases hgrid
    exact ⟨items :: grid, rfl, List.forall_mem_cons.mpr ⟨hitems, hcells⟩⟩

/-! ## Reading a value -/

section

variable {checker : Checker} {value : Value}

theorem read_eq_ofValue (h : value.kind ≠ "string") :
    read value checker = ofValue value checker := by
  cases value with
  | string text => exact absurd rfl h
  | half half => exact absurd rfl h
  | _ => rfl

theorem ofValue_eq_ok_iff {sheet : Sheet} :
    ofValue value checker = .ok sheet ↔ rowsOf value checker = .ok sheet.rows := by
  unfold ofValue
  cases h : rowsOf value checker with
  | error issues => simp
  | ok rows =>
    rw [Except.ok.injEq]
    exact ofRows_eq_ok_iff.trans eq_comm

end

section

variable {checker : Checker} (lawful : checker.Lawful) {value : Value} {grid : List (List Value)}

include lawful

theorem IsGrid.exists_rowsOf (h : IsGrid value grid) :
    ∃ texts, rowsOf value checker = .ok texts ∧
      List.Forall₂ (List.Forall₂ Spelled) grid texts := by
  obtain ⟨texts, hspelled⟩ := exists_spelled h.isCell
  exact ⟨texts, (rowsOf_eq_ok_iff lawful).mpr ⟨grid, h.value_eq, hspelled⟩, hspelled⟩

theorem exists_ofValue_iff :
    (∃ sheet, ofValue value checker = .ok sheet) ↔ ∃ grid, IsGrid value grid ∧ Even grid := by
  constructor
  · rintro ⟨sheet, hsheet⟩
    obtain ⟨grid, hvalue, hspelled⟩ :=
      (rowsOf_eq_ok_iff lawful).mp (ofValue_eq_ok_iff.mp hsheet)
    have heven : Even sheet.rows := sheet.rectangular
    exact ⟨grid, ⟨hvalue, isCell_of_spelled hspelled⟩,
      heven.of_lengths (lengths_of_forall₂ hspelled).symm⟩
  · rintro ⟨grid, hgrid, heven⟩
    obtain ⟨texts, hrows, hspelled⟩ := hgrid.exists_rowsOf lawful
    exact ⟨⟨texts, heven.of_lengths (lengths_of_forall₂ hspelled)⟩, ofValue_eq_ok_iff.mpr hrows⟩

theorem IsGrid.ofValue_of_firstUneven {n length : Nat} (h : IsGrid value grid)
    (hrow : FirstUneven grid n length) : ofValue value checker =
      .error (.raggedRows (.ofNat n) (.ofNat length) (.ofNat (grid.headD []).length)) := by
  obtain ⟨texts, hrows, hspelled⟩ := h.exists_rowsOf lawful
  have hlengths := lengths_of_forall₂ hspelled
  rw [ofValue, hrows, length_headD grid, hlengths, ← length_headD]
  exact ofRows_of_firstUneven (hrow.of_lengths hlengths)

theorem ofValue_of_faults {rows : List Value} (h : faults checker rows ≠ []) :
    ofValue (.list rows) checker = .error (.invalidInput
      ((faults checker rows).map fun fault => fault.1.text ++ ": " ++ fault.2.message)) := by
  have hissues := issues_rowsOf lawful rows
  unfold ofValue
  cases hrows : rowsOf (.list rows) checker with
  | ok texts =>
    rw [hrows] at hissues
    exact absurd (List.map_eq_nil_iff.mp hissues.symm) h
  | error issues =>
    rw [hrows] at hissues
    have hsame : issues = (faults checker rows).map issueOf := hissues
    have hlines : issues.map Issue.line =
        (faults checker rows).map fun fault => fault.1.text ++ ": " ++ fault.2.message := by
      rw [hsame, List.map_map]
      exact List.map_congr_left fun fault _ => line_issueOf fault
    show Except.error (Fault.invalidInput (issues.map Issue.line)) = _
    rw [hlines]

theorem ofValue_of_not_list (h : ∀ rows, value ≠ .list rows) :
    ∃ problem, rowsOf value checker = .error [⟨[], problem⟩] ∧
      ofValue value checker = .error (.invalidInput [problem.message]) := by
  obtain ⟨problem, hrefused⟩ := lawful.list_eq_error_of_not_list (rowCheck checker) h
  exact ⟨problem, hrefused, by rw [ofValue, rowsOf, gridCheck, hrefused]; rfl⟩

end

open Evaluator in
/-- A value is taken as a sheet exactly if it is a grid with rows of one length, and then cell by
cell.  What is no list is one fault without a place; of a list each faulty place is reported, in
reading order; what has none is a grid, and one whose rows differ in length is reported at the
first row that does. -/
theorem read_exact (checker : Checker) (lawful : checker.Lawful) (value : Value)
    (hvalue : value.kind ≠ "string") :
    ((∃ sheet, read value checker = .ok sheet) ↔ ∃ grid, IsGrid value grid ∧ Even grid) ∧
    (∀ sheet, read value checker = .ok sheet →
      (∃ grid, value = .list (grid.map .list) ∧
        List.Forall₂ (List.Forall₂ Spelled) grid sheet.rows) ∧
      ∀ host logger id, Session.start host logger id sheet.rows =
        .ok (Session.fresh host logger id sheet)) ∧
    ((∀ rows, value ≠ .list rows) → ∃ problem, rowsOf value checker = .error [⟨[], problem⟩] ∧
      read value checker = .error (.invalidInput [problem.message])) ∧
    (∀ rows, value = .list rows → ∃ found, IsReport checker rows found ∧
      (∀ other, IsReport checker rows other → other = found) ∧
      (found ≠ [] → read value checker = .error (.invalidInput
        (found.map fun fault => fault.1.text ++ ": " ++ fault.2.message))) ∧
      (found = [] → ∃ grid, IsGrid value grid)) ∧
    ∀ grid, IsGrid value grid → ¬ Even grid → ∃ n length, FirstUneven grid n length ∧
      read value checker =
        .error (.raggedRows (.ofNat n) (.ofNat length) (.ofNat (grid.headD []).length)) := by
  rw [read_eq_ofValue hvalue]
  refine ⟨exists_ofValue_iff lawful, fun sheet hsheet => ⟨?_, fun host logger id => ?_⟩,
    ofValue_of_not_list lawful, ?_, fun grid hgrid huneven => ?_⟩
  · exact (rowsOf_eq_ok_iff lawful).mp (ofValue_eq_ok_iff.mp hsheet)
  · exact Session.start_rows host logger id sheet
  · rintro rows rfl
    have hreport := isReport_faults lawful rows
    refine ⟨faults checker rows, hreport, fun other ho => ho.unique hreport,
      ofValue_of_faults lawful, fun hnone => exists_isGrid fun place hfaulty => ?_⟩
    obtain ⟨problem, hmem⟩ := (hreport.exact place).mpr hfaulty
    rw [hnone] at hmem
    exact List.not_mem_nil hmem
  · obtain ⟨n, length, hrow⟩ := exists_firstUneven huneven
    exact ⟨n, length, hrow, hgrid.ofValue_of_firstUneven lawful hrow⟩

/-- Three faults in reading order: a cell that is a truth value, a row that is null and a cell
that is not a number. -/
theorem read_exact_three_faults :
    Checker.standard.Lawful ∧
    read (.list [.list [.string "1", .boolean true], .null, .list [.number .nan]]) =
      .error (.invalidInput
        ["0.1: Invalid input", "1: Expected array, received null", "2.0: Invalid input"]) := by
  refine ⟨Checker.lawful_standard, ?_⟩
  let rows : List Value := [.list [.string "1", .boolean true], .null, .list [.number .nan]]
  obtain ⟨found, hreport, -, hfaults, -⟩ :=
    (read_exact .standard Checker.lawful_standard (.list rows) (by decide)).2.2.2.1 rows rfl
  have hfound : found = [(⟨0, some 1⟩, .noKindFits), (⟨1, none⟩, .expected "array" "null"),
      (⟨2, some 0⟩, .noKindFits)] :=
    hreport.unique (isReport_faults Checker.lawful_standard rows)
  subst hfound
  exact hfaults (List.cons_ne_nil _ _)

end Sheet
end Worksheet
