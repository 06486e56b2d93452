/-
Layout and spelling do not matter.

A reading of a cell depends on the gist of its text and on nothing else, apart from the wording of
its faults (`akin_interpret`).  So two sheets whose cells have the same gists are evaluated side by
side, cell by cell, with the same values and with faults of the same kinds, and any number of edits
keeps all gists.
-/
import Worksheet.Proofs.Formula.Spelling
import Worksheet.Proofs.Lockstep

namespace Worksheet

/-! ## Terms of one sense -/

namespace Term

/-- The two differ in the label of a reference, or are faults of one kind. -/
inductive Same : Except Fault Term → Except Fault Term → Prop
  | literal (x : Binary64) : Same (.ok (.literal x)) (.ok (.literal x))
  | reference (label label' : String) (position : Position) :
      Same (.ok (.reference label position)) (.ok (.reference label' position))
  | error {fault fault' : Fault} (name_eq : fault'.name = fault.name) :
      Same (.error fault) (.error fault')

theorem same_of_sense {text text' : List Char} (h : sense text' = sense text) :
    Same (parse (String.ofList text)) (parse (String.ofList text')) := by
  unfold sense at h
  cases hparse : parse (String.ofList text) with
  | error fault =>
    cases hparse' : parse (String.ofList text') with
    | error fault' =>
      rw [hparse, hparse'] at h
      exact .error (Sense.faulty.inj h)
    | ok term' =>
      rw [hparse, hparse'] at h
      cases term' <;> cases h
  | ok term =>
    cases hparse' : parse (String.ofList text') with
    | error fault' =>
      rw [hparse, hparse'] at h
      cases term <;> cases h
    | ok term' =>
      rw [hparse, hparse'] at h
      cases term with
      | literal x =>
        cases term' with
        | literal x' =>
          cases h
          exact .literal x
        | reference label' position' => cases h
      | reference label position =>
        cases term' with
        | literal x' => cases h
        | reference label' position' =>
          cases h
          exact .reference label label' position

end Term

/-! ## Formulas of one sense -/

structure Operand.Alike (operand operand' : Operand) : Prop where
  sign_eq : operand'.sign = operand.sign
  same : Term.Same (Term.parse operand.text) (Term.parse operand'.text)

namespace Formula

inductive Fragment.Alike : Fragment → Fragment → Prop
  | sign (s : Sign) : Alike (.sign s) (.sign s)
  | operand {text text' : List Char} (h : Term.sense text' = Term.sense text) :
      Alike (.operand text) (.operand text')

inductive Alike : Formula → Formula → Prop
  | single {operand operand' : Operand} (h : operand.Alike operand') :
      Alike (.single operand) (.single operand')
  | binary {left left' right right' : Operand} (hleft : left.Alike left') (operator : Sign)
      (hright : right.Alike right') :
      Alike (.binary left operator right) (.binary left' operator right')

theorem Fragment.alike_of_sense {fragment fragment' : Fragment}
    (h : fragment'.sense = fragment.sense) : Alike fragment fragment' := by
  cases fragment with
  | sign s =>
    cases fragment' with
    | sign s' =>
      cases h
      exact .sign s
    | operand text' => cases h
  | operand text =>
    cases fragment' with
    | sign s' => cases h
    | operand text' => exact .operand (Sum.inr.inj h)

variable {fragments fragments' : List Fragment}

theorem forall₂_alike (h : fragments'.map Fragment.sense = fragments.map Fragment.sense) :
    List.Forall₂ Fragment.Alike fragments fragments' := by
  rw [← List.forall₂_eq_eq_eq, List.forall₂_map_left_iff, List.forall₂_map_right_iff] at h
  exact h.flip.imp fun _ _ => Fragment.alike_of_sense

theorem takeOperand_alike (h : List.Forall₂ Fragment.Alike fragments fragments') :
    Option.Rel (fun taken taken' => taken.1.Alike taken'.1 ∧
      List.Forall₂ Fragment.Alike taken.2 taken'.2) (takeOperand fragments)
      (takeOperand fragments') := by
  cases h with
  | nil => exact .none
  | cons hfirst hrest =>
    cases hfirst with
    | operand hsense => exact .some ⟨⟨rfl, Term.same_of_sense hsense⟩, hrest⟩
    | sign s =>
      cases hrest with
      | nil => exact .none
      | cons hsecond hlast =>
        cases hsecond with
        | sign t => exact .none
        | operand hsense => exact .some ⟨⟨rfl, Term.same_of_sense hsense⟩, hlast⟩

theorem ofFragments_alike (h : List.Forall₂ Fragment.Alike fragments fragments') :
    Option.Rel Alike (ofFragments fragments) (ofFragments fragments') := by
  have hleft := takeOperand_alike h
  unfold ofFragments
  generalize takeOperand fragments = taken, takeOperand fragments' = taken' at hleft
  cases hleft with
  | none => exact .none
  | @some left left' hleft =>
    obtain ⟨left, rest⟩ := left
    obtain ⟨left', rest'⟩ := left'
    obtain ⟨hoperand, hrest⟩ := hleft
    dsimp only at hrest
    cases hrest with
    | nil => exact .some (.single hoperand)
    | @cons _ _ tail tail' hfirst htail =>
      cases hfirst with
      | operand hsense => exact .none
      | sign operator =>
        have hright := takeOperand_alike htail
        dsimp only
        generalize takeOperand tail = taken, takeOperand tail' = taken' at hright
        cases hright with
        | none => exact .none
        | @some right right' hright =>
          obtain ⟨right, last⟩ := right
          obtain ⟨right', last'⟩ := right'
          obtain ⟨hoperand', hlast⟩ := hright
          dsimp only at hlast
          cases hlast with
          | nil => exact .some (.binary hoperand operator hoperand')
          | cons => exact .none

end Formula

/-! ## Readings of one gist -/

namespace Text

/-- The three forms that a text can have, and its gist in each of them. -/
inductive Says (text : List Char) : Gist → Prop
  | blank (h : trim text = []) : Says text .blank
  | formula {rest : List Char} {senses : List (Sign ⊕ Sense)} (h : trim text = '=' :: rest)
      (senses_eq : Formula.senses rest = senses) : Says text (.formula senses)
  | number {value : Option Binary64} (hne : trim text ≠ [])
      (hform : ∀ rest, trim text ≠ '=' :: rest) (value_eq : Literal.parse? (trim text) = value) :
      Says text (.number value)

theorem says_gist (text : List Char) : Says text (gist text) := by
  unfold gist
  split
  · rename_i h
    exact .blank h
  · rename_i h
    exact .formula h rfl
  · rename_i hne hform
    exact .number hne (fun rest => hform rest) rfl

end Text

namespace Sheet

open Formula

variable {sheet other : Sheet} {cell : sheet.Member} {cell' : other.Member}
  {f : sheet.Member → Outcome} {g : other.Member → Outcome}

theorem akin_interpretOperand (hsize : sheet.SameSize other)
    (hvalue : ∀ target target', target'.1 = target.1 → Akin (f target) (g target'))
    {operand operand' : Operand} (h : operand.Alike operand') :
    Akin (sheet.interpretOperand f operand) (other.interpretOperand g operand') := by
  obtain ⟨hsign, hsame⟩ := h
  unfold interpretOperand
  rw [hsign]
  generalize Term.parse operand.text = term, Term.parse operand'.text = term' at hsame
  cases hsame with
  | literal x => exact .ok _
  | error hname => exact .error hname
  | reference label label' position =>
    dsimp only
    cases hfound : sheet.memberAt? position with
    | none =>
      rw [memberAt?_eq_none_of_sameSize hsize hfound]
      exact .error rfl
    | some target =>
      have hval : (⟨target.1, hsize.contains_iff.mpr target.2⟩ : other.Member).1 = target.1 := rfl
      have hakin := hvalue target _ hval
      rw [memberAt?_of_val_eq hval hfound]
      dsimp only
      generalize f target = outcome, g _ = outcome' at hakin
      cases hakin with
      | ok x => exact .ok _
      | error hname => exact .error hname

theorem akin_interpretFormula (hsize : sheet.SameSize other)
    (hvalue : ∀ target target', target'.1 = target.1 → Akin (f target) (g target'))
    (text text' : String) {formula formula' : Formula} (h : formula.Alike formula') :
    Akin (sheet.interpretFormula f text formula) (other.interpretFormula g text' formula') := by
  cases h with
  | single h => exact akin_interpretOperand hsize hvalue h
  | binary hleft operator hright =>
    exact akin_binary text text' operator (akin_interpretOperand hsize hvalue hleft)
      (akin_interpretOperand hsize hvalue hright)

theorem interpret_of_formula {rest : List Char} (h : sheet.trimmed cell = '=' :: rest) :
    sheet.interpret f cell =
      match ofFragments (fragments rest) with
      | some formula => sheet.interpretFormula f (String.ofList (Text.trim rest)) formula
      | none => .error (.invalidFormula (String.ofList (Text.trim rest)) none) := by
  have hparse : Formula.parse (String.ofList (Text.trim rest)) =
      match ofFragments (fragments rest) with
      | some formula => .ok formula
      | none => .error (.invalidFormula (String.ofList (Text.trim rest)) none) := by
    rw [← fragments_trim rest, Formula.parse, String.toList_ofList]
    rfl
  simp only [interpret, h, hparse]
  cases ofFragments (fragments rest) <;> rfl

/-- Texts of one gist are read alike in sheets of one size, if the values of the cells are akin. -/
theorem akin_interpret (hsize : sheet.SameSize other)
    (hgist : Text.gist (other.text cell'.1).toList = Text.gist (sheet.text cell.1).toList)
    (hvalue : ∀ target target', target'.1 = target.1 → Akin (f target) (g target')) :
    Akin (sheet.interpret f cell) (other.interpret g cell') := by
  have hsays := Text.says_gist (sheet.text cell.1).toList
  have hsays' := Text.says_gist (other.text cell'.1).toList
  rw [hgist] at hsays'
  -- Each gist belongs to one form, so the second text has the form of the first.
  generalize Text.gist (sheet.text cell.1).toList = gist at hsays hsays'
  cases hsays with
  | blank h =>
    cases hsays' with
    | blank h' =>
      have hblank : sheet.trimmed cell = [] := h
      have hblank' : other.trimmed cell' = [] := h'
      simp only [interpret, hblank, hblank']
      exact .ok 0
  | @formula rest _ h hsenses =>
    cases hsays' with
    | @formula rest' _ h' hsenses' =>
      rw [interpret_of_formula h, interpret_of_formula h']
      have halike := ofFragments_alike (forall₂_alike (hsenses'.trans hsenses.symm))
      generalize ofFragments (fragments rest) = formula, ofFragments (fragments rest') = formula'
        at halike
      cases halike with
      | none => exact .error rfl
      | some halike => exact akin_interpretFormula hsize hvalue _ _ halike
  | @number value hne hform hnumber =>
    cases hsays' with
    | number hne' hform' hnumber' =>
      rw [interpret_of_number hne hform, interpret_of_number hne' hform', trimmed, trimmed, hnumber,
        hnumber']
      cases value with
      | none => exact .error (by simp only [Fault.name])
      | some x => exact .ok x

/-! ## Sheets that are spelled differently -/

/-- Each text comes from the text of the same cell by any number of edits. -/
def Respelled (rows rows' : List (List String)) : Prop :=
  List.Forall₂ (List.Forall₂ Text.Respells) rows rows'

theorem Respelled.sameSize (h : Respelled sheet.rows other.rows) : sheet.SameSize other :=
  sameSize_of_lengths (lengths_of_forall₂ h)

theorem Respelled.gist_eq (h : Respelled sheet.rows other.rows) (cell : sheet.Member) :
    Text.gist (other.text cell.1).toList = Text.gist (sheet.text cell.1).toList := by
  have hrow : cell.1.row < sheet.rows.length := cell.2.1
  have hrow' : cell.1.row < other.rows.length := h.length_eq ▸ hrow
  have hrows := h.get hrow hrow'
  have hcolumn : cell.1.column < sheet.rows[cell.1.row].length :=
    column_lt_of_row (List.getElem?_eq_getElem hrow)
  have hcolumn' : cell.1.column < other.rows[cell.1.row].length := hrows.length_eq ▸ hcolumn
  have hedits := (hrows.get hcolumn hcolumn').gist_eq
  simpa [text, hrow, hrow', hcolumn, hcolumn'] using hedits

theorem Respelled.akin_naive (h : Respelled sheet.rows other.rows) (cell : sheet.Member)
    (cell' : other.Member) (hval : cell'.1 = cell.1) :
    Akin (sheet.naive [] cell) (other.naive [] cell') := by
  refine naive_related biUnique_samePlace (fun _ _ _ => .error (by simp only [Fault.name]))
    (fun path cell cell' g _ hval ih => ?_) .nil hval
  refine akin_interpret h.sameSize ?_ ih
  rw [hval]
  exact h.gist_eq cell

end Sheet

namespace Evaluator

/-- Edits of the layout and the spelling of any cells leave rows of texts a sheet, and all its
answers as they are but for the wording of faults. -/
theorem evaluateAll_respelled (host host' ended ended' : Host) (logger logger' : Logger)
    (id id' : String) (sheet : Sheet) (rows : List (List String))
    (h : Sheet.Respelled sheet.rows rows) :
    ∃ other, Sheet.ofRows rows = .ok other ∧
      (∀ table, ((start host logger id sheet).evaluateAll host ended).1 = .ok table ↔
        ((start host' logger' id' other).evaluateAll host' ended').1 = .ok table) ∧
      ∀ fault, ((start host logger id sheet).evaluateAll host ended).1 = .error fault →
        ∃ fault', ((start host' logger' id' other).evaluateAll host' ended').1 = .error fault' ∧
          fault'.name = fault.name := by
  have heven : Sheet.Even sheet.rows := sheet.rectangular
  let other : Sheet := ⟨rows, heven.of_lengths (Sheet.lengths_of_forall₂ h)⟩
  have hother : Sheet.Respelled sheet.rows other.rows := h
  have hakin : Akin ((start host logger id sheet).evaluateAll host ended).1
      ((start host' logger' id' other).evaluateAll host' ended').1 :=
    Sheet.akin_evaluateAll (atRest_start host logger id sheet)
      (atRest_start host' logger' id' other) hother.sameSize hother.akin_naive
  exact ⟨other, Sheet.ofRows_rows other, hakin.eq_ok_iff, fun fault => hakin.exists_error⟩

/-- A reference in capitals and with a zero, a literal without one, and two blanks. -/
theorem evaluateAll_respelled_sum :
    let sheet : Sheet := ⟨[["=b1+3", "012"]], by decide⟩
    let other : Sheet := ⟨[[" =B01+ 3", "12"]], by decide⟩
    let host : Host := ⟨"", 0, 0, [], 0, 0⟩
    Sheet.Respelled sheet.rows other.rows ∧
      ((start host (.mute host) "" sheet).evaluateAll host host).1 = .ok [[.ofInt 15, .ofInt 12]] ∧
      ((start host (.mute host) "" other).evaluateAll host host).1 =
        .ok [[.ofInt 15, .ofInt 12]] := by
  intro sheet other host
  have hblank : Text.Blanks [' '] := by simp [Text.Blanks, Text.isBlank]
  have hdigits : Decimal.Digits ['1', '2'] := by simp [Decimal.Digits, Char.isDigit]
  have hlabel : ∀ c : Char, c.isAlpha = true → CellLabel.Spells [c, '1'] [c] ['1'] := fun c hc =>
    ⟨rfl, List.cons_ne_nil _ _, List.forall_mem_singleton.mpr hc, List.cons_ne_nil _ _,
      List.forall_mem_singleton.mpr rfl⟩
  -- Every edit of the first operand leaves the rest of the formula in place.
  have hoperand : ∀ {text text'}, Term.Edit text text' →
      Text.Edit ('=' :: (text ++ [] ++ ['+', '3'])) ('=' :: (text' ++ [] ++ ['+', '3'])) := fun h =>
    .formula Text.blanks_nil (.left (.operand Text.blanks_nil Text.blanks_nil h) .plus ['3'])
  have hletter : Term.Edit ['b', '1'] ['B', '1'] := .case ['b'] ['1'] ['B'] (hlabel 'b' rfl) rfl
  have hzero : Term.Edit ['B', '1'] ['B', '0', '1'] := .row ['B'] ['1'] (hlabel 'B' rfl)
  have hinner : Text.Edit "=B01+3".toList "=B01+ 3".toList :=
    .formula Text.blanks_nil (.right ['B', '0', '1'] .plus (.before hblank ['3']))
  have houter : Text.Edit "=B01+ 3".toList " =B01+ 3".toList := .before hblank _
  have hsum : Relation.EqvGen Text.Edit "=b1+3".toList " =B01+ 3".toList :=
    .trans _ _ _ (.rel _ _ (hoperand hletter)) (.trans _ _ _ (.rel _ _ (hoperand hzero))
      (.trans _ _ _ (.rel _ _ hinner) (.rel _ _ houter)))
  have hnumber : Text.Edit "12".toList "012".toList :=
    .term Text.blanks_nil Text.blanks_nil none (.literal (by decide) hdigits)
  have hrespelled : Sheet.Respelled sheet.rows other.rows :=
    .cons (.cons hsum (.cons (.symm _ _ (.rel _ _ hnumber)) .nil)) .nil
  have hanswer : ((start host (.mute host) "" sheet).evaluateAll host host).1 =
      .ok [[.ofInt 15, .ofInt 12]] := by decide +kernel
  obtain ⟨found, hfound, htable, -⟩ := evaluateAll_respelled host host host host (.mute host)
    (.mute host) "" "" sheet other.rows hrespelled
  rw [Sheet.ofRows_rows other, Except.ok.injEq] at hfound
  refine ⟨hrespelled, hanswer, ?_⟩
  rw [hfound]
  exact (htable _).mp hanswer

end Evaluator
end Worksheet
