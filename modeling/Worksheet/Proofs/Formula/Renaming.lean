/-
Formulas with other operands.

The text of a cell has a formula exactly if it is blanks, an equals sign and a layout
(`hasFormula_iff`).  To rename it is to replace the operands of the layout and to leave the blanks
and the signs where they are; a text without a formula stays as it is (`Text.Renamed`).  As long as
operands are replaced by operands, the renamed text has the formula with the replaced operands.
-/
import Worksheet.Proofs.Formula.Grammar
import Worksheet.Proofs.Reading

namespace Worksheet

open Text Formula

variable {f : List Char → List Char}

/-! ## Layouts -/

namespace Operand

def map (f : List Char → List Char) (operand : Operand) : Operand :=
  ⟨operand.sign, String.ofList (f operand.text.toList)⟩

namespace Layout

def map (f : List Char → List Char) (layout : Operand.Layout) : Operand.Layout :=
  { layout with text := f layout.text }

variable {layout : Operand.Layout}

theorem Valid.map (hf : ∀ text, Core text → Core (f text)) (h : layout.Valid) :
    (layout.map f).Valid :=
  ⟨h.before, h.between, hf layout.text h.text, h.after⟩

theorem operand_map (f : List Char → List Char) (layout : Operand.Layout) :
    (layout.map f).operand = layout.operand.map f := by
  simp only [operand, map, Operand.map, String.toList_ofList]

end Layout
end Operand

namespace Formula

def map (f : List Char → List Char) : Formula → Formula
  | single operand => .single (operand.map f)
  | binary left operator right => .binary (left.map f) operator (right.map f)

namespace Layout

def map (f : List Char → List Char) : Layout → Layout
  | single operand => .single (operand.map f)
  | binary left operator right => .binary (left.map f) operator (right.map f)

variable {layout : Layout}

theorem Valid.map (hf : ∀ text, Core text → Core (f text)) (h : layout.Valid) :
    (layout.map f).Valid := by
  cases layout with
  | single operand => exact Operand.Layout.Valid.map hf h
  | binary left operator right =>
    exact ⟨Operand.Layout.Valid.map hf h.1, Operand.Layout.Valid.map hf h.2⟩

theorem formula_map (f : List Char → List Char) (layout : Layout) :
    (layout.map f).formula = layout.formula.map f := by
  cases layout with
  | single operand => exact congrArg Formula.single (operand.operand_map f)
  | binary left operator right =>
    simp only [map, formula, Formula.map, Operand.Layout.operand_map]

end Layout
end Formula

/-! ## Texts of cells -/

/-- The text is the one before it with the operands of its formula replaced, if it has one. -/
inductive Text.Renamed (f : List Char → List Char) : List Char → List Char → Prop
  | formula {before : List Char} {layout : Formula.Layout} (hb : Blanks before)
      (valid : layout.Valid) :
      Renamed f (before ++ '=' :: layout.chars) (before ++ '=' :: (layout.map f).chars)
  | same {text : List Char} (plain : ∀ before (layout : Formula.Layout), Blanks before →
      layout.Valid → text ≠ before ++ '=' :: layout.chars) : Renamed f text text

theorem Text.exists_renamed (f : List Char → List Char) (text : List Char) :
    ∃ text', Renamed f text text' := by
  by_cases h : ∃ (before : List Char) (layout : Formula.Layout), Blanks before ∧ layout.Valid ∧
      text = before ++ '=' :: layout.chars
  · obtain ⟨before, layout, hb, hvalid, rfl⟩ := h
    exact ⟨_, .formula hb hvalid⟩
  · refine ⟨text, .same fun before layout hb hvalid htext => ?_⟩
    exact h ⟨before, layout, hb, hvalid, htext⟩

namespace Sheet

variable {sheet : Sheet} {cell : sheet.Member}

/-- The formula of a cell stands in its text behind blanks and an equals sign. -/
theorem hasFormula_iff {formula : Formula} : sheet.HasFormula cell formula ↔
    ∃ (before : List Char) (layout : Formula.Layout), Blanks before ∧ layout.Valid ∧
      layout.formula = formula ∧ (sheet.text cell.1).toList = before ++ '=' :: layout.chars := by
  have hparse : ∀ rest, Formula.parse (String.ofList (trim rest)) = .ok formula ↔
      ofFragments (fragments rest) = some formula := by
    intro rest
    rw [parse_eq_ok_iff, String.toList_ofList, fragments_trim]
  constructor
  · rintro ⟨rest, htrimmed, hformula⟩
    obtain ⟨before, after, htext, hb, ha, -⟩ := exists_eq_trim (sheet.text cell.1).toList
    have hrest : trim (sheet.text cell.1).toList = '=' :: rest := htrimmed
    rw [hparse, ← fragments_append_blanks rest ha] at hformula
    obtain ⟨layout, hvalid, hchars, hlayout⟩ := ofFragments_sound hformula
    refine ⟨before, layout, hb, hvalid, hlayout, ?_⟩
    rw [hchars, ← List.cons_append, ← hrest]
    exact htext
  · rintro ⟨before, layout, hb, hvalid, rfl, htext⟩
    obtain ⟨rest, htrim, hfragments⟩ := exists_trim_equals hb layout.chars
    refine ⟨rest, ?_, ?_⟩
    · rw [trimmed, htext, htrim]
    · rw [hparse, hfragments, ofFragments_complete hvalid]

end Sheet
end Worksheet
