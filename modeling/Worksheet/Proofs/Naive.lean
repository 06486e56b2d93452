/-
Evaluation without a memory.

`Sheet.naive` keeps nothing but the path from the cell that was asked for to the cell at
hand, and evaluates a cell again each time it is referred to.  A cell on the path needs its
own value.  The path is the only state, so a value that was found on one path is found on
every path that the references of the cell do not lead to (`naive_eq_ok_of_off`), and a cell
with a value lies on no cycle (`not_cyclic_of_naive_eq_ok`).
-/
import Worksheet.Proofs.Reading

namespace Worksheet
namespace Sheet

theorem mem_members {sheet : Sheet} (cell : sheet.Member) : cell ∈ sheet.members :=
  List.mem_pmap.mpr ⟨cell.1, mem_cells.mpr cell.2, rfl⟩

/-- A cell that joins a path leaves fewer cells off it. -/
theorem countP_off_cons_lt {sheet : Sheet} {path : List sheet.Member} {cell : sheet.Member}
    (h : cell ∉ path) :
    sheet.members.countP (· ∉ cell :: path) < sheet.members.countP (· ∉ path) := by
  refine Progress.countP_lt_countP (fun other ho => ?_) (mem_members cell) ?_ ?_
  · simp only [List.mem_cons, not_or, decide_eq_true_eq] at ho ⊢
    exact ho.2
  · simp
  · simpa using h

/-- The value of a cell that is needed for every cell on a path. -/
def naive (sheet : Sheet) (path : List sheet.Member) (cell : sheet.Member) : Outcome :=
  if cell ∈ path then .error (.circularReference cell.1.label)
  else sheet.interpret (fun target => naive sheet (cell :: path) target) cell
termination_by sheet.members.countP (· ∉ path)
decreasing_by exact countP_off_cons_lt ‹_›

theorem naive_of_mem {sheet : Sheet} {path : List sheet.Member} {cell : sheet.Member}
    (h : cell ∈ path) : sheet.naive path cell = .error (.circularReference cell.1.label) := by
  rw [naive, if_pos h]

theorem naive_of_not_mem {sheet : Sheet} {path : List sheet.Member} {cell : sheet.Member}
    (h : cell ∉ path) :
    sheet.naive path cell = sheet.interpret (sheet.naive (cell :: path)) cell := by
  rw [naive, if_neg h]

theorem interpret_of_naive_eq_ok {sheet : Sheet} {path : List sheet.Member} {cell : sheet.Member}
    {x : Binary64} (h : sheet.naive path cell = .ok x) :
    sheet.interpret (sheet.naive (cell :: path)) cell = .ok x := by
  by_cases hmem : cell ∈ path
  · rw [naive_of_mem hmem] at h
    cases h
  · rwa [naive_of_not_mem hmem] at h

/-! ## What a value says about the references behind it -/

/-- Following references from a cell, in any number of steps, leads to another. -/
abbrev Reaches (sheet : Sheet) : sheet.Member → sheet.Member → Prop :=
  Relation.ReflTransGen sheet.Refers

theorem mem_references_of_refers {sheet : Sheet} {cell target : sheet.Member}
    (h : sheet.Refers cell target) : target.1 ∈ (sheet.content cell.1).references := by
  obtain ⟨formula, operand, ⟨rest, htext, hparse⟩, ho, label, position, hterm, hfound⟩ := h
  have hsource : sheet.source operand.text = .cell target.1 := by
    simp only [source, hterm, memberAt?_eq_some hfound]
  have hcontent : sheet.content cell.1 =
      sheet.formulaContent (String.ofList (Text.trim rest)) := by
    have htrim : Text.trim (sheet.text cell.1).toList = '=' :: rest := htext
    simp only [content, htrim]
  rw [hcontent, formulaContent, hparse]
  cases formula with
  | single only =>
    rw [List.mem_singleton.mp ho] at hsource
    simp [Content.references, summand, hsource, Source.references]
  | binary left operator right =>
    rcases List.mem_cons.mp ho with rfl | hlast
    · simp [Content.references, summand, hsource, Source.references]
    · rw [List.mem_singleton.mp hlast] at hsource
      simp [Content.references, summand, hsource, Source.references]

/-- A list of cells that the references of its cells do not leave holds all that they lead to. -/
theorem mem_of_reaches {sheet : Sheet} {cells : List Cell} {cell target : sheet.Member}
    (hclosed : ∀ inner ∈ cells, ∀ next ∈ (sheet.content inner).references, next ∈ cells)
    (hmem : cell.1 ∈ cells) (hr : sheet.Reaches cell target) : target.1 ∈ cells := by
  induction hr with
  | refl => exact hmem
  | tail _ hstep ih => exact hclosed _ ih _ (mem_references_of_refers hstep)

/-- The references of a cell with a value lead to no cell of the path. -/
theorem off_path_of_naive_eq_ok {sheet : Sheet} {path : List sheet.Member}
    {cell target : sheet.Member} {x : Binary64} (h : sheet.naive path cell = .ok x)
    (hr : sheet.Reaches cell target) : target ∉ path := by
  induction path, cell using naive.induct sheet generalizing x with
  | case1 path cell hmem =>
    rw [naive_of_mem hmem] at h
    cases h
  | case2 path cell hoff ih =>
    rcases hr.cases_head with rfl | ⟨next, hstep, hrest⟩
    · exact hoff
    · obtain ⟨y, hy⟩ := eq_ok_of_refers (interpret_of_naive_eq_ok h) hstep
      intro hmem
      exact ih next hy hrest (List.mem_cons_of_mem cell hmem)

/-- A value does not depend on the path, as long as no reference leads back to it. -/
theorem naive_eq_ok_of_off {sheet : Sheet} {path other : List sheet.Member} {cell : sheet.Member}
    {x : Binary64} (h : sheet.naive path cell = .ok x)
    (hoff : ∀ target, sheet.Reaches cell target → target ∉ other) :
    sheet.naive other cell = .ok x := by
  induction path, cell using naive.induct sheet generalizing x other with
  | case1 path cell hmem =>
    rw [naive_of_mem hmem] at h
    cases h
  | case2 path cell hnot ih =>
    rw [naive_of_not_mem hnot] at h
    rw [naive_of_not_mem (hoff cell Relation.ReflTransGen.refl), ← h]
    refine interpret_congr fun target hstep => ?_
    obtain ⟨y, hy⟩ := eq_ok_of_refers h hstep
    rw [hy]
    -- The path has grown by the cell itself, which `off_path_of_naive_eq_ok` rules out.
    refine ih target hy fun last hlast hmem => ?_
    rcases List.mem_cons.mp hmem with rfl | hother
    · exact off_path_of_naive_eq_ok hy hlast List.mem_cons_self
    · exact hoff last (Relation.ReflTransGen.head hstep hlast) hother

theorem naive_nil_eq_ok {sheet : Sheet} {path : List sheet.Member} {cell : sheet.Member}
    {x : Binary64} (h : sheet.naive path cell = .ok x) : sheet.naive [] cell = .ok x :=
  naive_eq_ok_of_off h fun _ _ => List.not_mem_nil

theorem not_cyclic_of_naive_eq_ok {sheet : Sheet} {path : List sheet.Member}
    {cell : sheet.Member} {x : Binary64} (h : sheet.naive path cell = .ok x) :
    ¬ Relation.TransGen sheet.Refers cell cell := by
  intro hcycle
  obtain ⟨next, hstep, hrest⟩ := Relation.TransGen.head'_iff.mp hcycle
  obtain ⟨y, hy⟩ := eq_ok_of_refers (interpret_of_naive_eq_ok h) hstep
  -- The cell is on the path on which its reference has a value.
  exact off_path_of_naive_eq_ok hy hrest List.mem_cons_self

end Sheet
end Worksheet
