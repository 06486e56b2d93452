/-
How far an evaluation has come.

Every cell is not started, in progress or done with a value.  Progress is a function from
cells to marks, so what holds of one cell is said of one cell, and a walk is compared with
where it began cell by cell.  `pending` counts the cells of a sheet that are not started; it
is what runs out when a walk goes deeper.
-/
import Worksheet.Sheet.Basic

namespace Worksheet

inductive Mark where
  | notStarted
  | inProgress
  | done (value : Binary64)
  deriving DecidableEq

namespace Mark

/-- The value of a cell that is done; zero for the others. -/
def value : Mark → Binary64
  | done x => x
  | _ => 0

def name : Mark → String
  | notStarted => "not-started"
  | inProgress => "in-progress"
  | done _ => "done"

def letter : Mark → Char
  | notStarted => 'n'
  | inProgress => 'i'
  | done _ => 'd'

/-- The mark of a cell once its evaluation has been given up. -/
def settled : Mark → Mark
  | inProgress => notStarted
  | mark => mark

end Mark

abbrev Progress := Cell → Mark

namespace Progress

def fresh : Progress := fun _ => .notStarted

def set (progress : Progress) (cell : Cell) (mark : Mark) : Progress :=
  fun other => if other = cell then mark else progress other

theorem set_self (progress : Progress) (cell : Cell) (mark : Mark) :
    progress.set cell mark cell = mark := by simp [set]

theorem set_of_ne {progress : Progress} {cell other : Cell} {mark : Mark} (h : other ≠ cell) :
    progress.set cell mark other = progress other := by simp [set, h]

def settle (progress : Progress) : Progress := fun cell => (progress cell).settled

/-- No cell goes back to the start. -/
def Advances (before after : Progress) : Prop :=
  ∀ cell, after cell = .notStarted → before cell = .notStarted

theorem Advances.refl (progress : Progress) : Advances progress progress := fun _ h => h

theorem Advances.trans {a b c : Progress} (hab : Advances a b) (hbc : Advances b c) :
    Advances a c := fun cell h => hab cell (hbc cell h)

theorem advances_set {progress : Progress} {cell : Cell} {mark : Mark}
    (h : mark ≠ .notStarted) : Advances progress (progress.set cell mark) := by
  intro other ho
  by_cases he : other = cell
  · subst he
    rw [set_self] at ho
    exact absurd ho h
  · rwa [set_of_ne he] at ho

/-! ## Cells that are not started -/

def pending (sheet : Sheet) (progress : Progress) : Nat :=
  sheet.cells.countP fun cell => progress cell = .notStarted

theorem countP_le_countP {α : Type} {items : List α} {p q : α → Bool}
    (h : ∀ item, p item = true → q item = true) : items.countP p ≤ items.countP q :=
  List.countP_mono_left fun item _ => h item

/-- A list that holds an item where only the wider of two tests holds counts more with it. -/
theorem countP_lt_countP {α : Type} {items : List α} {p q : α → Bool}
    (h : ∀ item, p item = true → q item = true) {item : α} (hmem : item ∈ items)
    (hp : p item = false) (hq : q item = true) : items.countP p < items.countP q := by
  induction items with
  | nil => cases hmem
  | cons first rest ih =>
    rw [List.countP_cons, List.countP_cons]
    have hrest : rest.countP p ≤ rest.countP q := countP_le_countP h
    rcases List.mem_cons.mp hmem with rfl | hin
    · rw [hp, hq]
      simp only [Bool.false_eq_true, if_false, if_true]
      omega
    · have hlt := ih hin
      cases hpf : p first with
      | true =>
        rw [h first hpf]
        simp only [if_true]
        omega
      | false =>
        simp only [Bool.false_eq_true, if_false]
        omega

theorem pending_le_of_advances {sheet : Sheet} {before after : Progress}
    (h : Advances before after) : pending sheet after ≤ pending sheet before :=
  countP_le_countP fun cell ha => by
    have := h cell (by simpa using ha)
    simpa using this

theorem pending_set_lt {sheet : Sheet} {progress : Progress} {cell : Cell} {mark : Mark}
    (hin : sheet.Contains cell) (hstart : progress cell = .notStarted)
    (hmark : mark ≠ .notStarted) :
    pending sheet (progress.set cell mark) < pending sheet progress := by
  refine countP_lt_countP (fun other ho => ?_) (Sheet.mem_cells.mpr hin) ?_ ?_
  · have hmove : Advances progress (progress.set cell mark) := advances_set hmark
    simpa using hmove other (by simpa using ho)
  · simp [set_self, hmark]
  · simpa using hstart

theorem pending_le_length (sheet : Sheet) (progress : Progress) :
    pending sheet progress ≤ sheet.cells.length := List.countP_le_length

end Progress
end Worksheet
