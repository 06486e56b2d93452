/-
Rows and columns in another order.

When the rows and the columns of a sheet are put in another order and the references of its formulas
go along (`Rearranged`), a cell says the same about the cells that it refers to, wherever they are
now.  Evaluation without a memory looks at nothing else, so it comes to the same value along
corresponding paths, and the table of the new sheet is that of the old one in the new order
(`values_rearranged`).  Which cells a request for all cells comes to first does not matter.
-/
import Worksheet.Proofs.Formula.Renaming
import Worksheet.Proofs.Formula.Spelling
import Worksheet.Proofs.Lockstep
import Worksheet.Proofs.Solution
import Mathlib.Logic.Equiv.Basic

namespace Worksheet

open Binary64 Text Formula

/-! ## Labels of cells -/

namespace Cell

variable {cell : Cell}

theorem label_eq_written (hrow : cell.row < maxSafe) (hcolumn : cell.column < maxSafe) :
    cell.label = String.ofList (CellLabel.written cell.row cell.column) := by
  have hwritten := CellLabel.ofPosition_of_counts (Position.counts_ofNat hrow hcolumn)
  exact Except.ok.inj ((ofPosition_position hcolumn).symm.trans hwritten)

/-- The label of a cell is a reference to the cell. -/
theorem parse_label (hrow : cell.row < maxSafe) (hcolumn : cell.column < maxSafe) :
    Term.parse cell.label = .ok (.reference cell.label cell.position) := by
  obtain ⟨hlabel, hposition⟩ := CellLabel.toPosition_written hrow hcolumn
  rw [← label_eq_written hrow hcolumn] at hlabel hposition
  rw [Term.parse, if_pos hlabel, hposition]
  rfl

theorem core_label (hrow : cell.row < maxSafe) (hcolumn : cell.column < maxSafe) :
    Core cell.label.toList := by
  have hspells : CellLabel.Spells (CellLabel.written cell.row cell.column) _ _ :=
    CellLabel.written_spells hcolumn
  rw [label_eq_written hrow hcolumn, String.toList_ofList]
  refine Term.core_of_isAlphanum ?_ (Term.isAlphanum_of_label hspells)
  rw [hspells.text_eq]
  exact List.append_ne_nil_of_left_ne_nil hspells.letters_ne_nil _

end Cell

namespace Sheet

/-! ## The new order -/

section

variable {sheet : Sheet} (p : Equiv.Perm (Fin sheet.rowCount))
  (q : Equiv.Perm (Fin sheet.columnCount))

/-- Where a cell is in the new order. -/
def moved (cell : sheet.Member) : Cell :=
  ⟨p ⟨cell.1.row, cell.2.1⟩, q ⟨cell.1.column, cell.2.2⟩⟩

/-- The operand with a reference to a cell of the sheet going to the new place of the cell. -/
def relabel (text : List Char) : List Char :=
  match Term.parse (String.ofList text) with
  | .ok (.reference _ position) =>
    match sheet.memberAt? position with
    | some target => (moved p q target).label.toList
    | none => text
  | _ => text

/-- The other sheet has the texts in the new order, with the references of formulas going along. -/
structure Rearranged (other : Sheet) : Prop where
  sameSize : sheet.SameSize other
  renamed : ∀ cell : sheet.Member, Text.Renamed (relabel p q) (sheet.text cell.1).toList
    (other.text (moved p q cell)).toList

theorem contains_moved (cell : sheet.Member) : sheet.Contains (moved p q cell) :=
  ⟨(p _).2, (q _).2⟩

theorem moved_injective : Function.Injective (moved p q) := by
  intro cell cell' h
  obtain ⟨hrow, hcolumn⟩ := Cell.mk.inj h
  have hrow' := Fin.val_eq_of_eq (p.injective (Fin.ext hrow))
  have hcolumn' := Fin.val_eq_of_eq (q.injective (Fin.ext hcolumn))
  exact Subtype.ext (congrArg₂ Cell.mk hrow' hcolumn')

theorem exists_moved {cell : Cell} (hin : sheet.Contains cell) :
    ∃ origin, moved p q origin = cell := by
  obtain ⟨row, column⟩ := cell
  have hrow : row < sheet.rowCount := hin.1
  have hcolumn : column < sheet.columnCount := hin.2
  refine ⟨⟨⟨p.symm ⟨row, hrow⟩, q.symm ⟨column, hcolumn⟩⟩, (p.symm _).2, (q.symm _).2⟩, ?_⟩
  simp only [moved, Fin.eta, Equiv.apply_symm_apply]

theorem biUnique_moved {other : Sheet} : Relator.BiUnique
    fun (cell : sheet.Member) (cell' : other.Member) => cell'.1 = moved p q cell :=
  ⟨fun _ _ _ h h' => moved_injective p q (h.symm.trans h'),
    fun _ _ _ h h' => Subtype.ext (h.trans h'.symm)⟩

/-- Any texts can stand in a sheet of the same size. -/
theorem exists_of_texts (sheet : Sheet) (texts : Cell → String) :
    ∃ other, sheet.SameSize other ∧ ∀ cell, sheet.Contains cell → other.text cell = texts cell := by
  let rows := (List.range sheet.rowCount).map fun row => (sheet.rowCells row).map texts
  have hlengths : sheet.rows.map List.length = rows.map List.length := by
    refine List.ext_getElem (by simp [rows, rowCount]) fun row hrow hrow' => ?_
    rw [List.length_map] at hrow
    have hwidth : sheet.rows[row].length = sheet.columnCount :=
      sheet.rectangular _ (List.getElem_mem hrow)
    simpa [rows, rowCells] using hwidth
  have heven : Even sheet.rows := sheet.rectangular
  refine ⟨⟨rows, heven.of_lengths hlengths⟩, sameSize_of_lengths hlengths, ?_⟩
  rintro cell ⟨hrow, hcolumn⟩
  simp [text, rows, rowCells, hrow, hcolumn]

/-- There is a sheet in each order. -/
theorem exists_rearranged : ∃ other, Rearranged p q other := by
  choose renamed hrenamed using fun cell : sheet.Member =>
    Text.exists_renamed (relabel p q) (sheet.text cell.1).toList
  choose origin horigin using fun cell : sheet.Member => exists_moved p q cell.2
  obtain ⟨other, hsize, htexts⟩ := sheet.exists_of_texts fun cell =>
    if hin : sheet.Contains cell then String.ofList (renamed (origin ⟨cell, hin⟩)) else ""
  refine ⟨other, hsize, fun cell => ?_⟩
  have hin : sheet.Contains (moved p q cell) := contains_moved p q cell
  have hsame : origin ⟨moved p q cell, hin⟩ = cell := moved_injective p q (horigin _)
  rw [htexts _ hin, dif_pos hin, hsame, String.toList_ofList]
  exact hrenamed cell

end

variable {sheet other : Sheet} {p : Equiv.Perm (Fin sheet.rowCount)}
  {q : Equiv.Perm (Fin sheet.columnCount)} {cell : sheet.Member} {cell' : other.Member}
  {f : sheet.Member → Outcome} {g : other.Member → Outcome} {operand : Operand}

/-! ## Operands in the new order -/

theorem map_relabel_of_names {target : sheet.Member} (h : sheet.Names operand target) :
    operand.map (relabel p q) = ⟨operand.sign, (moved p q target).label⟩ := by
  obtain ⟨label, position, hparse, hfound⟩ := h
  simp only [Operand.map, relabel, String.ofList_toList, hparse, hfound]

theorem map_relabel_of_not_names (h : ∀ target, ¬ sheet.Names operand target) :
    operand.map (relabel p q) = operand := by
  have hsame : relabel p q operand.text.toList = operand.text.toList := by
    unfold relabel
    rw [String.ofList_toList]
    split
    · rename_i label position hparse
      split
      · rename_i target hfound
        exact absurd ⟨label, position, hparse, hfound⟩ (h target)
      · rfl
    · rfl
  rw [Operand.map, hsame, String.ofList_toList]

theorem interpretOperand_of_names {target : sheet.Member} (h : sheet.Names operand target) :
    sheet.interpretOperand f operand =
      match f target with
      | .error fault => .error fault
      | .ok x => .ok (operand.sign.apply x) := by
  obtain ⟨label, position, hparse, hfound⟩ := h
  cases hvalue : f target with
  | error fault => simp only [interpretOperand, hparse, hfound, hvalue]
  | ok x => simp only [interpretOperand, hparse, hfound, hvalue]

/-- An operand that refers to no cell of a sheet is read alike in all sheets of its size. -/
theorem akin_interpretOperand_of_not_names (hsize : sheet.SameSize other)
    (h : ∀ target, ¬ sheet.Names operand target) :
    Akin (sheet.interpretOperand f operand) (other.interpretOperand g operand) := by
  unfold interpretOperand
  cases hparse : Term.parse operand.text with
  | error fault => exact .error rfl
  | ok term =>
    cases term with
    | literal x => exact .ok _
    | reference label position =>
      dsimp only
      cases hfound : sheet.memberAt? position with
      | some target => exact absurd ⟨label, position, hparse, hfound⟩ (h target)
      | none =>
        rw [memberAt?_eq_none_of_sameSize hsize hfound]
        dsimp only
        rw [outOfRange_of_sameSize hsize]
        exact .error rfl

section

variable (hrows : sheet.rowCount ≤ maxSafe) (hcolumns : sheet.columnCount ≤ maxSafe)

include hrows hcolumns

theorem lt_maxSafe_of_contains {cell : Cell} (hin : sheet.Contains cell) :
    cell.row < maxSafe ∧ cell.column < maxSafe :=
  ⟨Nat.lt_of_lt_of_le hin.1 hrows, Nat.lt_of_lt_of_le hin.2 hcolumns⟩

theorem core_relabel (text : List Char) (h : Core text) : Core (relabel p q text) := by
  unfold relabel
  split
  · split
    · rename_i target hfound
      obtain ⟨hrow, hcolumn⟩ := lt_maxSafe_of_contains hrows hcolumns (contains_moved p q target)
      exact Cell.core_label hrow hcolumn
    · exact h
  · exact h

/-- The label of a cell refers to the cell. -/
theorem names_label (hsize : sheet.SameSize other) (sign : Sign) (cell' : other.Member) :
    other.Names ⟨sign, cell'.1.label⟩ cell' := by
  obtain ⟨hrow, hcolumn⟩ :=
    lt_maxSafe_of_contains hrows hcolumns (hsize.contains_iff.mp cell'.2)
  have hcounts : cell'.1.position.Counts cell'.1.row cell'.1.column :=
    Position.counts_ofNat hrow hcolumn
  exact ⟨_, _, Cell.parse_label hrow hcolumn,
    memberAt?_eq_some_iff.mpr ⟨hcounts.row_eq, hcounts.column_eq⟩⟩

theorem akin_interpretOperand_relabel (hsize : sheet.SameSize other)
    (hvalue : ∀ target target', target'.1 = moved p q target → Akin (f target) (g target'))
    (operand : Operand) :
    Akin (sheet.interpretOperand f operand)
      (other.interpretOperand g (operand.map (relabel p q))) := by
  by_cases hnames : ∃ target, sheet.Names operand target
  · obtain ⟨target, hnames⟩ := hnames
    obtain ⟨target', htarget⟩ : ∃ target' : other.Member, target'.1 = moved p q target :=
      ⟨⟨_, hsize.contains_iff.mpr (contains_moved p q target)⟩, rfl⟩
    have hnames' := names_label hrows hcolumns hsize operand.sign target'
    have hakin := hvalue target target' htarget
    rw [map_relabel_of_names hnames, ← htarget, interpretOperand_of_names hnames,
      interpretOperand_of_names hnames']
    generalize f target = outcome, g target' = outcome' at hakin
    cases hakin with
    | ok x => exact .ok _
    | error hname => exact .error hname
  · have hnone : ∀ target, ¬ sheet.Names operand target := fun target h => hnames ⟨target, h⟩
    rw [map_relabel_of_not_names hnone]
    exact akin_interpretOperand_of_not_names hsize hnone

end

/-! ## Cells in the new order -/

/-- A text without a formula is read alike wherever it stands. -/
theorem akin_interpret_of_no_formula (htext : other.text cell'.1 = sheet.text cell.1)
    (h : ∀ formula, ¬ sheet.HasFormula cell formula) :
    Akin (sheet.interpret f cell) (other.interpret g cell') := by
  have htrimmed : other.trimmed cell' = sheet.trimmed cell := by
    rw [trimmed, trimmed, htext]
  unfold interpret
  rw [htrimmed]
  split
  · exact .ok 0
  · rename_i rest hrest
    cases hparse : Formula.parse (String.ofList (trim rest)) with
    | error fault => exact .error rfl
    | ok formula => exact absurd ⟨rest, hrest, hparse⟩ (h formula)
  · split
    · exact .ok _
    · exact .error (by simp only [Fault.name])

theorem Rearranged.akin_interpret (h : Rearranged p q other) (hrows : sheet.rowCount ≤ maxSafe)
    (hcolumns : sheet.columnCount ≤ maxSafe) (hcell : cell'.1 = moved p q cell)
    (hvalue : ∀ target target', target'.1 = moved p q target → Akin (f target) (g target')) :
    Akin (sheet.interpret f cell) (other.interpret g cell') := by
  have hrenamed := h.renamed cell
  rw [← hcell] at hrenamed
  generalize htext : (sheet.text cell.1).toList = text,
    htext' : (other.text cell'.1).toList = text' at hrenamed
  cases hrenamed with
  | @formula before layout hb hvalid =>
    have hformula : sheet.HasFormula cell layout.formula :=
      hasFormula_iff.mpr ⟨before, layout, hb, hvalid, rfl, htext⟩
    have hformula' : other.HasFormula cell' (layout.formula.map (relabel p q)) :=
      hasFormula_iff.mpr ⟨before, layout.map (relabel p q), hb,
        hvalid.map (core_relabel hrows hcolumns), layout.formula_map _, htext'⟩
    obtain ⟨shown, hread⟩ := interpret_of_hasFormula hformula f
    obtain ⟨shown', hread'⟩ := interpret_of_hasFormula hformula' g
    have hoperand := akin_interpretOperand_relabel hrows hcolumns h.sameSize hvalue
    rw [hread, hread']
    cases layout.formula with
    | single operand => exact hoperand operand
    | binary left operator right =>
      exact akin_binary shown shown' operator (hoperand left) (hoperand right)
  | same plain =>
    refine akin_interpret_of_no_formula (String.toList_inj.mp (htext'.trans htext.symm)) ?_
    intro formula hformula
    obtain ⟨before, layout, hb, hvalid, -, hlayout⟩ := hasFormula_iff.mp hformula
    exact plain before layout hb hvalid (htext.symm.trans hlayout)

theorem Rearranged.akin_naive (h : Rearranged p q other) (hrows : sheet.rowCount ≤ maxSafe)
    (hcolumns : sheet.columnCount ≤ maxSafe) (hcell : cell'.1 = moved p q cell) :
    Akin (sheet.naive [] cell) (other.naive [] cell') :=
  naive_related (biUnique_moved p q) (fun _ _ _ => .error (by simp only [Fault.name]))
    (fun _ _ _ _ _ hmoved ih => h.akin_interpret hrows hcolumns hmoved ih) .nil hcell

/-! ## Tables in the new order -/

/-- Put the rows and the columns of a sheet in another order, and let its references go along, each
to the label that is written for the new place of its cell.  The new sheet has a table exactly if the
old one has, and a value has then gone where its cell has. -/
theorem values_rearranged (sheet : Sheet) (hrows : sheet.rowCount ≤ maxSafe)
    (hcolumns : sheet.columnCount ≤ maxSafe) (p : Equiv.Perm (Fin sheet.rowCount))
    (q : Equiv.Perm (Fin sheet.columnCount)) :
    (∀ cell : sheet.Member,
      CellLabel.ofPosition (moved p q cell).position = .ok (moved p q cell).label) ∧
    (∃ other, Rearranged p q other) ∧ ∀ other, Rearranged p q other →
      ((∃ table, other.values = .ok table) ↔ ∃ table, sheet.values = .ok table) ∧
      ∀ table table', sheet.values = .ok table → other.values = .ok table' →
        ∀ cell : sheet.Member, ∃ x, Table.valueAt? table cell.1 = some x ∧
          Table.valueAt? table' (moved p q cell) = some x := by
  refine ⟨fun cell => ?_, exists_rearranged p q, fun other h => ?_⟩
  · have hsafe := lt_maxSafe_of_contains hrows hcolumns (contains_moved p q cell)
    exact Cell.ofPosition_position hsafe.2
  have hmember : ∀ cell : sheet.Member, other.Contains (moved p q cell) := fun cell =>
    h.sameSize.contains_iff.mpr (contains_moved p q cell)
  have hvalue : ∀ (cell : sheet.Member) x, sheet.naive [] cell = .ok x ↔
      other.naive [] ⟨moved p q cell, hmember cell⟩ = .ok x := fun cell =>
    (h.akin_naive hrows hcolumns rfl).eq_ok_iff
  refine ⟨?_, fun table table' htable htable' cell => ?_⟩
  · rw [exists_values_iff, exists_values_iff]
    refine ⟨fun hall cell => ?_, fun hall cell' => ?_⟩
    · obtain ⟨x, hx⟩ := hall ⟨moved p q cell, hmember cell⟩
      exact ⟨x, (hvalue cell x).mpr hx⟩
    · obtain ⟨cell, hcell⟩ := exists_moved p q (h.sameSize.contains_iff.mp cell'.2)
      obtain ⟨x, hx⟩ := hall cell
      have hsame : (⟨moved p q cell, hmember cell⟩ : other.Member) = cell' := Subtype.ext hcell
      exact ⟨x, hsame ▸ (hvalue cell x).mp hx⟩
  · obtain ⟨x, hx, hentry⟩ := (values_eq_ok_iff.mp htable).2 cell
    obtain ⟨y, hy, hentry'⟩ := (values_eq_ok_iff.mp htable').2 ⟨moved p q cell, hmember cell⟩
    rw [(hvalue cell x).mp hx] at hy
    rw [← Except.ok.inj hy] at hentry'
    exact ⟨x, hentry, hentry'⟩

/-- Both rows and both columns change places, and so do the cells that the two formulas refer to. -/
theorem values_rearranged_swap :
    let sheet : Sheet := ⟨[["=B2+1", "5"], ["= a1", "7"]], by decide⟩
    let other : Sheet := ⟨[["7", "= B2"], ["5", "=A1+1"]], by decide⟩
    let p : Equiv.Perm (Fin sheet.rowCount) := Equiv.swap (0 : Fin 2) (1 : Fin 2)
    let q : Equiv.Perm (Fin sheet.columnCount) := Equiv.swap (0 : Fin 2) (1 : Fin 2)
    let table : Table := [[.ofInt 8, .ofInt 5], [.ofInt 8, .ofInt 7]]
    let table' : Table := [[.ofInt 7, .ofInt 8], [.ofInt 5, .ofInt 8]]
    Rearranged p q other ∧ sheet.values = .ok table ∧ other.values = .ok table' ∧
      ∀ cell : sheet.Member, ∃ x, table.valueAt? cell.1 = some x ∧
        table'.valueAt? (moved p q cell) = some x := by
  intro sheet other p q table table'
  have hcore : Core ['B', '2'] ∧ Core ['1'] ∧ Core ['a', '1'] :=
    ⟨Term.core_of_isAlphanum (by decide) (List.all_eq_true.mp rfl),
      Term.core_of_isAlphanum (by decide) (List.all_eq_true.mp rfl),
      Term.core_of_isAlphanum (by decide) (List.all_eq_true.mp rfl)⟩
  have hblank : Blanks [' '] := by simp [Blanks, isBlank]
  have hformula : ∀ (layout : Formula.Layout) text text', layout.Valid →
      text = '=' :: layout.chars → text' = '=' :: (layout.map (relabel p q)).chars →
      Text.Renamed (relabel p q) text text' := by
    rintro layout _ _ hvalid rfl rfl
    exact .formula blanks_nil hvalid
  have hplain : ∀ text text', '=' ∉ text → text' = text →
      Text.Renamed (relabel p q) text text' := by
    rintro text _ hnone rfl
    refine .same fun before layout _ _ htext => hnone ?_
    rw [htext]
    exact List.mem_append_right _ List.mem_cons_self
  have hfirst : Text.Renamed (relabel p q) (sheet.text ⟨0, 0⟩).toList
      (other.text ⟨1, 1⟩).toList :=
    hformula (.binary ⟨[], none, [], ['B', '2'], []⟩ .plus ⟨[], none, [], ['1'], []⟩) _ _
      ⟨⟨blanks_nil, blanks_nil, hcore.1, blanks_nil⟩,
        ⟨blanks_nil, blanks_nil, hcore.2.1, blanks_nil⟩⟩ (by decide +kernel) (by decide +kernel)
  have hsecond : Text.Renamed (relabel p q) (sheet.text ⟨0, 1⟩).toList
      (other.text ⟨1, 0⟩).toList := hplain _ _ (by decide +kernel) (by decide +kernel)
  have hthird : Text.Renamed (relabel p q) (sheet.text ⟨1, 0⟩).toList
      (other.text ⟨0, 1⟩).toList :=
    hformula (.single ⟨[' '], none, [], ['a', '1'], []⟩) _ _
      ⟨hblank, blanks_nil, hcore.2.2, blanks_nil⟩ (by decide +kernel) (by decide +kernel)
  have hfourth : Text.Renamed (relabel p q) (sheet.text ⟨1, 1⟩).toList
      (other.text ⟨0, 0⟩).toList := hplain _ _ (by decide +kernel) (by decide +kernel)
  have hrearranged : Rearranged p q other := by
    refine ⟨⟨rfl, rfl⟩, ?_⟩
    rintro ⟨⟨row, column⟩, hrow, hcolumn⟩
    have hrow' : row = 0 ∨ row = 1 := Nat.le_one_iff_eq_zero_or_eq_one.mp (Nat.le_of_lt_succ hrow)
    have hcolumn' : column = 0 ∨ column = 1 :=
      Nat.le_one_iff_eq_zero_or_eq_one.mp (Nat.le_of_lt_succ hcolumn)
    rcases hrow' with rfl | rfl <;> rcases hcolumn' with rfl | rfl
    · exact hfirst
    · exact hsecond
    · exact hthird
    · exact hfourth
  have htable : sheet.values = .ok table := by decide +kernel
  have htable' : other.values = .ok table' := by decide +kernel
  obtain ⟨-, -, hall⟩ := values_rearranged sheet (by decide) (by decide) p q
  exact ⟨hrearranged, htable, htable', (hall other hrearranged).2 _ _ htable htable'⟩

end Sheet
end Worksheet
