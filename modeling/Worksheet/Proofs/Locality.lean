/-
An answer depends only on the cells behind it.

Two sheets that hold the same text in every cell that a cell reaches give it the same answer
(`evaluateCell_local`), whatever else they hold.  Their sizes may differ as well, and then the
one fault that can tell them apart is that of a reference outside the sheet, which names the
size.  So a reading is compared as long as it ends with anything else (`Comparable`), and it is
enough to follow it along the path of the naive evaluation.
-/
import Worksheet.Proofs.Evaluator

namespace Worksheet

/-- The outcome is not about the size of a sheet. -/
def Sizeless (outcome : Outcome) : Prop :=
  ∀ reference rowCount columnCount, outcome ≠ .error (.outOfRange reference rowCount columnCount)

theorem sizeless_ok (x : Binary64) : Sizeless (.ok x) := by
  intro reference rowCount columnCount h
  cases h

namespace Sheet

variable {sheet other : Sheet} {cell : sheet.Member} {cell' : other.Member}

/-! ## Sheets that share cells -/

def SameSize (sheet other : Sheet) : Prop :=
  other.rowCount = sheet.rowCount ∧ other.columnCount = sheet.columnCount

theorem SameSize.contains_iff (h : sheet.SameSize other) {cell : Cell} :
    other.Contains cell ↔ sheet.Contains cell := by
  rw [Contains, Contains, h.1, h.2]

/-- The other sheet holds the cell, with the same text. -/
def Shares (sheet other : Sheet) (cell : Cell) : Prop :=
  other.Contains cell ∧ other.text cell = sheet.text cell

/-- The other sheet holds every cell that can be reached from the cell, with the same text. -/
def SharesBehind (sheet other : Sheet) (cell : sheet.Member) : Prop :=
  ∀ target : sheet.Member, sheet.Reaches cell target → sheet.Shares other target

/-- What a sheet makes of a text can be compared with what the other makes of it. -/
def Comparable (sheet other : Sheet) (outcome : Outcome) : Prop :=
  Sizeless outcome ∨ sheet.SameSize other

theorem comparable_ok (x : Binary64) : sheet.Comparable other (.ok x) := .inl (sizeless_ok x)

theorem SharesBehind.step (h : sheet.SharesBehind other cell) {target : sheet.Member}
    (hr : sheet.Refers cell target) : sheet.SharesBehind other target :=
  fun last hlast => h last (.head hr hlast)

theorem memberAt?_of_val_eq {position : Position} {target : sheet.Member} {target' : other.Member}
    (hval : target'.1 = target.1) (h : sheet.memberAt? position = some target) :
    other.memberAt? position = some target' := by
  rw [memberAt?_eq_some_iff] at h ⊢
  rw [hval]
  exact h

theorem memberAt?_eq_none_of_sameSize (hsize : sheet.SameSize other) {position : Position}
    (h : sheet.memberAt? position = none) : other.memberAt? position = none := by
  cases hfound : other.memberAt? position with
  | none => rfl
  | some target =>
    have hval : (⟨target.1, hsize.contains_iff.mp target.2⟩ : sheet.Member).1 = target.1 := rfl
    rw [memberAt?_of_val_eq hval hfound] at h
    cases h

theorem outOfRange_of_sameSize (hsize : sheet.SameSize other) (label : String) :
    other.outOfRange label = sheet.outOfRange label := by
  rw [outOfRange, outOfRange, hsize.1, hsize.2]

/-! ## Readings of one text in two sheets

`f` and `g` give the values of the cells of the two sheets. -/

/-- The two give one value to the same cell, if that value can be compared. -/
def Agree (f : sheet.Member → Outcome) (g : other.Member → Outcome) (target : sheet.Member) :
    Prop :=
  ∃ target' : other.Member, target'.1 = target.1 ∧
    (sheet.Comparable other (f target) → g target' = f target)

variable {f : sheet.Member → Outcome} {g : other.Member → Outcome}

theorem interpretOperand_eq_of_agree {operand : Operand}
    (h : ∀ target, sheet.Names operand target → Agree f g target)
    (hc : sheet.Comparable other (sheet.interpretOperand f operand)) :
    other.interpretOperand g operand = sheet.interpretOperand f operand := by
  unfold interpretOperand at hc ⊢
  cases hparse : Term.parse operand.text with
  | error fault => rfl
  | ok term =>
    cases term with
    | literal x => rfl
    | reference label position =>
      simp only [hparse] at hc ⊢
      cases hfound : sheet.memberAt? position with
      | none =>
        simp only [hfound] at hc ⊢
        rcases hc with hsizeless | hsize
        · exact absurd rfl (hsizeless label _ _)
        · simp only [memberAt?_eq_none_of_sameSize hsize hfound, outOfRange_of_sameSize hsize]
      | some target =>
        obtain ⟨target', hval, hvalue⟩ := h target ⟨label, position, hparse, hfound⟩
        simp only [hfound, memberAt?_of_val_eq hval hfound] at hc ⊢
        cases hf : f target with
        | ok x => rw [hvalue (hf ▸ comparable_ok x), hf]
        | error fault =>
          simp only [hf] at hc
          rw [hvalue (hf ▸ hc), hf]

theorem interpretFormula_eq_of_agree {text : String} {formula : Formula}
    (h : ∀ operand ∈ formula.operands, ∀ target, sheet.Names operand target → Agree f g target)
    (hc : sheet.Comparable other (sheet.interpretFormula f text formula)) :
    other.interpretFormula g text formula = sheet.interpretFormula f text formula := by
  cases formula with
  | single operand => exact interpretOperand_eq_of_agree (h operand List.mem_cons_self) hc
  | binary left operator right =>
    have hleft := interpretOperand_eq_of_agree (h left List.mem_cons_self)
    have hright :=
      interpretOperand_eq_of_agree (h right (List.mem_cons_of_mem left List.mem_cons_self))
    simp only [interpretFormula] at hc ⊢
    -- An operand that fails ends the reading, so what it fails with can be compared.
    cases hl : sheet.interpretOperand f left with
    | error fault =>
      simp only [hl] at hc
      rw [hleft (hl ▸ hc), hl]
    | ok x =>
      rw [hleft (hl ▸ comparable_ok x), hl]
      simp only [hl] at hc
      cases hr : sheet.interpretOperand f right with
      | error fault =>
        simp only [hr] at hc
        rw [hright (hr ▸ hc), hr]
      | ok y => rw [hright (hr ▸ comparable_ok y), hr]

theorem interpret_eq_of_agree (hval : cell'.1 = cell.1)
    (htext : other.text cell.1 = sheet.text cell.1)
    (h : ∀ target, sheet.Refers cell target → Agree f g target)
    (hc : sheet.Comparable other (sheet.interpret f cell)) :
    other.interpret g cell' = sheet.interpret f cell := by
  have htrimmed : other.trimmed cell' = sheet.trimmed cell := by
    rw [trimmed, trimmed, hval, htext]
  unfold interpret at hc ⊢
  rw [htrimmed, hval, htext]
  split
  · rfl
  · rename_i rest hrest
    cases hparse : Formula.parse (String.ofList (Text.trim rest)) with
    | error fault => rfl
    | ok formula =>
      simp only [hrest, hparse] at hc ⊢
      exact interpretFormula_eq_of_agree (fun operand ho target hnames =>
        h target ⟨formula, operand, ⟨rest, hrest, hparse⟩, ho, hnames⟩) hc
  · rfl

/-! ## Paths of the same cells -/

theorem mem_path_iff {path : List sheet.Member} {path' : List other.Member}
    (hpath : path'.map Subtype.val = path.map Subtype.val) (hval : cell'.1 = cell.1) :
    cell' ∈ path' ↔ cell ∈ path := by
  rw [← List.mem_map_of_injective Subtype.val_injective, hpath, hval,
    List.mem_map_of_injective Subtype.val_injective]

theorem cons_path {path : List sheet.Member} {path' : List other.Member}
    (hpath : path'.map Subtype.val = path.map Subtype.val) (hval : cell'.1 = cell.1) :
    (cell' :: path').map Subtype.val = (cell :: path).map Subtype.val := by
  rw [List.map_cons, List.map_cons, hpath, hval]

/-- Sheets that share what is behind a cell evaluate it alike, on paths of the same cells. -/
theorem naive_eq_of_sharesBehind {path : List sheet.Member} {path' : List other.Member}
    (hpath : path'.map Subtype.val = path.map Subtype.val) (hval : cell'.1 = cell.1)
    (hshares : sheet.SharesBehind other cell)
    (hc : sheet.Comparable other (sheet.naive path cell)) :
    other.naive path' cell' = sheet.naive path cell := by
  induction path, cell using naive.induct sheet generalizing path' cell' with
  | case1 path cell hin =>
    rw [naive_of_mem hin, naive_of_mem ((mem_path_iff hpath hval).mpr hin), hval]
  | case2 path cell hoff ih =>
    rw [naive_of_not_mem hoff] at hc ⊢
    rw [naive_of_not_mem fun hin => hoff ((mem_path_iff hpath hval).mp hin)]
    refine interpret_eq_of_agree hval (hshares cell .refl).2 (fun target hr => ?_) hc
    have hbehind := hshares.step hr
    exact ⟨⟨target.1, (hbehind target .refl).1⟩, rfl,
      ih target (cons_path hpath hval) rfl hbehind⟩

/-! ## Sheets that grow

A cell is shared if its row is continued, so a sheet shares all its cells with one that has more
rows below or more columns to the right. -/

theorem exists_row (cell : sheet.Member) : ∃ row, sheet.rows[cell.1.row]? = some row :=
  ⟨_, List.getElem?_eq_getElem cell.2.1⟩

theorem column_lt_of_row {row : List String} (hrow : sheet.rows[cell.1.row]? = some row) :
    cell.1.column < row.length := by
  rw [sheet.rectangular row (List.mem_of_getElem? hrow)]
  exact cell.2.2

theorem shares_of_row (more : List String) {row : List String}
    (hrow : sheet.rows[cell.1.row]? = some row)
    (hother : other.rows[cell.1.row]? = some (row ++ more)) : sheet.Shares other cell := by
  have hwidth : (row ++ more).length = other.columnCount :=
    other.rectangular _ (List.mem_of_getElem? hother)
  have hcolumn : cell.1.column < row.length := column_lt_of_row hrow
  refine ⟨⟨(List.getElem?_eq_some_iff.mp hother).1, ?_⟩, ?_⟩
  · rw [← hwidth, List.length_append]
    omega
  · rw [text, text, hrow, hother, Option.getD_some, Option.getD_some,
      List.getElem?_append_left hcolumn]

theorem shares_of_more_rows {more : List (List String)} (h : other.rows = sheet.rows ++ more)
    (cell : sheet.Member) : sheet.Shares other cell := by
  obtain ⟨row, hrow⟩ := sheet.exists_row cell
  refine shares_of_row [] hrow ?_
  rw [h, List.getElem?_append_left cell.2.1, hrow, List.append_nil]

theorem shares_of_more_columns {right : List (List String)}
    (hlength : right.length = sheet.rows.length)
    (h : other.rows = List.zipWith (· ++ ·) sheet.rows right) (cell : sheet.Member) :
    sheet.Shares other cell := by
  obtain ⟨row, hrow⟩ := sheet.exists_row cell
  obtain ⟨more, hmore⟩ : ∃ more, right[cell.1.row]? = some more :=
    ⟨_, List.getElem?_eq_getElem (hlength ▸ cell.2.1)⟩
  refine shares_of_row more hrow ?_
  rw [h, List.getElem?_zipWith, hrow, hmore]

/-- The other sheet has more rows below, or each of its rows is continued to the right. -/
inductive GrowsTo (sheet other : Sheet) : Prop
  | rows {more : List (List String)} (h : other.rows = sheet.rows ++ more)
  | columns {right : List (List String)} (length_eq : right.length = sheet.rows.length)
      (h : other.rows = List.zipWith (· ++ ·) sheet.rows right)

theorem GrowsTo.shares (h : sheet.GrowsTo other) (cell : sheet.Member) :
    sheet.Shares other cell := by
  cases h with
  | rows h => exact shares_of_more_rows h cell
  | columns hlength h => exact shares_of_more_columns hlength h cell

/-- Cells that are not reached may hold any text. -/
theorem SameSize.sharesBehind (hsize : sheet.SameSize other)
    (h : ∀ target : sheet.Member, sheet.Reaches cell target →
      other.text target = sheet.text target) : sheet.SharesBehind other cell :=
  fun target hr => ⟨hsize.contains_iff.mpr target.2, h target hr⟩

end Sheet

namespace Evaluator

/-- The answer of a fresh evaluator depends on the text of the cells that are reached, and on the
size of the sheet only where a reference leads outside it.  So more rows or columns and other
texts in cells that are not reached change no value. -/
theorem evaluateCell_local (host host' : Host) (logger logger' : Logger) (id id' : String)
    (sheet other : Sheet) (position : Position) (cell : sheet.Member)
    (h : sheet.memberAt? position = some cell) :
    (sheet.SharesBehind other cell →
      ((∀ reference rowCount columnCount,
          ((start host logger id sheet).evaluateCell host position).1 ≠
            .error (.outOfRange reference rowCount columnCount)) ∨ sheet.SameSize other) →
        ((start host' logger' id' other).evaluateCell host' position).1 =
          ((start host logger id sheet).evaluateCell host position).1) ∧
    (sheet.GrowsTo other →
      ∀ x, ((start host logger id sheet).evaluateCell host position).1 = .ok x →
        ((start host' logger' id' other).evaluateCell host' position).1 = .ok x) ∧
    (sheet.SameSize other →
      (∀ target : sheet.Member, sheet.Reaches cell target →
        other.text target = sheet.text target) →
      ((start host' logger' id' other).evaluateCell host' position).1 =
        ((start host logger id sheet).evaluateCell host position).1) := by
  have hanswer : ((start host logger id sheet).evaluateCell host position).1 =
      sheet.naive [] cell := by
    rw [evaluateCell_answer host (atRest_start host logger id sheet)]
    show (sheet.atPosition position).bind (sheet.naive []) = _
    simp only [Sheet.atPosition, h]
    rfl
  have hlocal : sheet.SharesBehind other cell →
      sheet.Comparable other (sheet.naive [] cell) →
        ((start host' logger' id' other).evaluateCell host' position).1 =
          sheet.naive [] cell := by
    intro hshares hc
    have hval : (⟨cell.1, (hshares cell .refl).1⟩ : other.Member).1 = cell.1 := rfl
    rw [evaluateCell_answer host' (atRest_start host' logger' id' other)]
    show (other.atPosition position).bind (other.naive []) = _
    simp only [Sheet.atPosition, Sheet.memberAt?_of_val_eq hval h]
    exact Sheet.naive_eq_of_sharesBehind rfl hval hshares hc
  rw [hanswer]
  refine ⟨hlocal, fun hgrows x hx => ?_, fun hsize htext => hlocal (hsize.sharesBehind htext)
    (.inr hsize)⟩
  rw [hlocal (fun target _ => hgrows.shares target) (hx ▸ Sheet.comparable_ok x), hx]

/-- A cell that is not reached is edited into a cycle, and a row and a column are added. -/
theorem evaluateCell_local_edited :
    let sheet : Sheet := ⟨[["=B1+1", "2", "x"]], by decide⟩
    let other : Sheet := ⟨[["=B1+1", "2", "=C1", "7"], ["=A2", "", "=", ""]], by decide⟩
    let host : Host := ⟨"", 0, 0, [], 0, 0⟩
    ((start host (.mute host) "" sheet).evaluateCell host ⟨0, 0⟩).1 = .ok 3 ∧
      ((start host (.mute host) "" other).evaluateCell host ⟨0, 0⟩).1 = .ok 3 := by
  intro sheet other host
  have hcell : sheet.memberAt? ⟨0, 0⟩ = some ⟨⟨0, 0⟩, by decide⟩ := by decide +kernel
  have hvalue : ((start host (.mute host) "" sheet).evaluateCell host ⟨0, 0⟩).1 = .ok 3 := by
    decide +kernel
  have hshares : sheet.SharesBehind other ⟨⟨0, 0⟩, by decide⟩ := by
    intro target hr
    have hmem : target.1 ∈ [(⟨0, 0⟩ : Cell), ⟨0, 1⟩] :=
      Sheet.mem_of_reaches (by decide +kernel) (by decide) hr
    have hshared : ∀ cell ∈ [(⟨0, 0⟩ : Cell), ⟨0, 1⟩],
        other.Contains cell ∧ other.text cell = sheet.text cell := by decide +kernel
    exact hshared target.1 hmem
  refine ⟨hvalue, ?_⟩
  rw [(evaluateCell_local host host (.mute host) (.mute host) "" "" sheet other ⟨0, 0⟩ _ hcell).1
    hshares (.inl ?_), hvalue]
  rw [hvalue]
  exact sizeless_ok 3

end Evaluator
end Worksheet
