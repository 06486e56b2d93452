/-
What the marks of an evaluation mean.

The cells in progress are the cells on the path from the cell that was asked for (`OnPath`).
A cell that is done has its value on the empty path and refers to cells that are done as
well (`Sound`).  No reference leads from such a cell back to the path, so its value holds on
the path too (`Sound.naive_eq_ok`), and an answer from the table can neither hide a fault nor
move it.
-/
import Worksheet.Proofs.Naive

namespace Worksheet
namespace Progress

/-- The cells in progress are those of the path. -/
def OnPath (sheet : Sheet) (path : List sheet.Member) (progress : Progress) : Prop :=
  ∀ cell : sheet.Member, progress cell = .inProgress ↔ cell ∈ path

/-- A cell that is done has its value and refers to cells that are done. -/
structure Sound (sheet : Sheet) (progress : Progress) : Prop where
  value : ∀ (cell : sheet.Member) x, progress cell = .done x → sheet.naive [] cell = .ok x
  closed : ∀ (cell target : sheet.Member) x, progress cell = .done x →
    sheet.Refers cell target → ∃ y, progress target = .done y

/-- What is done stays done, with the same value. -/
def Keeps (before after : Progress) : Prop := ∀ cell x, before cell = .done x → after cell = .done x

theorem Keeps.refl (progress : Progress) : Keeps progress progress := fun _ _ h => h

theorem Keeps.trans {a b c : Progress} (hab : Keeps a b) (hbc : Keeps b c) : Keeps a c :=
  fun cell x h => hbc cell x (hab cell x h)

theorem keeps_set {progress : Progress} {cell : Cell} {mark : Mark}
    (h : ∀ x, progress cell ≠ .done x) : Keeps progress (progress.set cell mark) := by
  intro other x hx
  have hne : other ≠ cell := by
    intro heq
    exact h x (heq ▸ hx)
  rwa [set_of_ne hne]

theorem keeps_start {progress : Progress} {cell : Cell} (h : progress cell = .notStarted) :
    Keeps progress (progress.set cell .inProgress) := by
  refine keeps_set fun x hx => ?_
  rw [h] at hx
  cases hx

theorem sound_fresh (sheet : Sheet) : Sound sheet fresh := by
  constructor
  · intro cell x h
    cases h
  · intro cell target x h
    cases h

theorem onPath_fresh (sheet : Sheet) : OnPath sheet [] fresh := by
  intro cell
  constructor
  · intro h
    cases h
  · intro h
    cases h

/-- All that can be reached from a cell that is done is done. -/
theorem Sound.done_of_reaches {sheet : Sheet} {progress : Progress} (hs : progress.Sound sheet)
    {cell target : sheet.Member} {x : Binary64} (hdone : progress cell = .done x)
    (hr : sheet.Reaches cell target) : ∃ y, progress target = .done y := by
  induction hr with
  | refl => exact ⟨x, hdone⟩
  | tail _ hstep ih =>
    obtain ⟨y, hy⟩ := ih
    exact hs.closed _ _ y hy hstep

/-- A value of the table is the value on the path of cells in progress. -/
theorem Sound.naive_eq_ok {sheet : Sheet} {path : List sheet.Member} {progress : Progress}
    (hs : progress.Sound sheet) (hp : progress.OnPath sheet path) {cell : sheet.Member}
    {x : Binary64} (hdone : progress cell = .done x) : sheet.naive path cell = .ok x := by
  refine Sheet.naive_eq_ok_of_off (hs.value cell x hdone) fun target hr hmem => ?_
  obtain ⟨y, hy⟩ := hs.done_of_reaches hdone hr
  rw [(hp target).mpr hmem] at hy
  cases hy

/-! ## Starting and finishing a cell -/

theorem set_other {sheet : Sheet} (progress : Progress) {cell other : sheet.Member} {mark : Mark}
    (h : other ≠ cell) : progress.set cell mark other = progress other :=
  set_of_ne fun heq => h (Subtype.ext heq)

theorem OnPath.start {sheet : Sheet} {path : List sheet.Member} {progress : Progress}
    (hp : progress.OnPath sheet path) (cell : sheet.Member) :
    (progress.set cell .inProgress).OnPath sheet (cell :: path) := by
  intro other
  by_cases heq : other = cell
  · rw [heq, set_self]
    simp
  · rw [set_other progress heq, hp other, List.mem_cons]
    simp [heq]

theorem OnPath.finish {sheet : Sheet} {path : List sheet.Member} {progress : Progress}
    {cell : sheet.Member} (hp : progress.OnPath sheet (cell :: path)) (hoff : cell ∉ path)
    (x : Binary64) : (progress.set cell (.done x)).OnPath sheet path := by
  intro other
  by_cases heq : other = cell
  · rw [heq, set_self]
    simp [hoff]
  · rw [set_other progress heq, hp other, List.mem_cons]
    simp [heq]

theorem Sound.start {sheet : Sheet} {progress : Progress} (hs : progress.Sound sheet)
    {cell : sheet.Member} (hstart : progress cell = .notStarted) :
    (progress.set cell .inProgress).Sound sheet := by
  have hback : ∀ (other : sheet.Member) x,
      progress.set cell .inProgress other = .done x → progress other = .done x := by
    intro other x hx
    by_cases heq : other = cell
    · rw [heq, set_self] at hx
      cases hx
    · rwa [set_other progress heq] at hx
  refine ⟨fun other x hx => hs.value other x (hback other x hx), fun other target x hx hr => ?_⟩
  obtain ⟨y, hy⟩ := hs.closed other target x (hback other x hx) hr
  exact ⟨y, keeps_start hstart target y hy⟩

theorem Sound.finish {sheet : Sheet} {progress : Progress} (hs : progress.Sound sheet)
    {cell : sheet.Member} {x : Binary64} (hvalue : sheet.naive [] cell = .ok x)
    (hrefers : ∀ target, sheet.Refers cell target → ∃ y, progress target = .done y) :
    (progress.set cell (.done x)).Sound sheet := by
  have hdone : ∀ target : sheet.Member, (∃ y, progress target = .done y) →
      ∃ y, progress.set cell (.done x) target = .done y := by
    intro target ⟨y, hy⟩
    by_cases heq : target = cell
    · exact ⟨x, by rw [heq, set_self]⟩
    · exact ⟨y, by rw [set_other progress heq, hy]⟩
  constructor
  · intro other y hy
    by_cases heq : other = cell
    · rw [heq, set_self] at hy
      cases hy
      rw [heq]
      exact hvalue
    · rw [set_other progress heq] at hy
      exact hs.value other y hy
  · intro other target y hy hr
    by_cases heq : other = cell
    · exact hdone target (hrefers target (heq ▸ hr))
    · rw [set_other progress heq] at hy
      exact hdone target (hs.closed other target y hy hr)

end Progress
end Worksheet
