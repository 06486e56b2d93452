/-
The grammar of formulas.

A layout is a formula as it stands in a text, blanks included.  The texts that parse are those
of the layouts, and a layout can be read back from its text but for one thing: where no sign
stands before an operand, the blanks there are one run and not two (`parse_exact`).
-/
import Worksheet.Proofs.Formula.Split

namespace Worksheet

open Text Formula

/-! ## Operands -/

/-- An operand in a text: blanks, perhaps a sign, blanks, the operand and blanks. -/
structure Operand.Layout where
  before : List Char
  sign : Option Sign
  between : List Char
  text : List Char
  after : List Char

namespace Operand.Layout

structure Valid (layout : Operand.Layout) : Prop where
  before : Blanks layout.before
  between : Blanks layout.between
  text : Core layout.text
  after : Blanks layout.after

def chars (layout : Operand.Layout) : List Char :=
  layout.before ++ (layout.sign.toList.map Sign.char ++
    (layout.between ++ (layout.text ++ layout.after)))

/-- No sign counts as a plus. -/
def operand (layout : Operand.Layout) : Operand :=
  ⟨layout.sign.getD .plus, String.ofList layout.text⟩

/-- The layout with all blanks before an operand without a sign in one run. -/
def merged (layout : Operand.Layout) : Operand.Layout :=
  match layout.sign with
  | some _ => layout
  | none => { layout with before := layout.before ++ layout.between, between := [] }

/-- The fragments of the text of a layout. -/
def parts (layout : Operand.Layout) : List Fragment :=
  layout.sign.toList.map .sign ++ [.operand layout.text]

variable {layout other : Operand.Layout} {rest rest' : List Char}

theorem chars_append_of_none (h : layout.sign = none) (rest : List Char) :
    layout.chars ++ rest =
      (layout.before ++ layout.between) ++ (layout.text ++ (layout.after ++ rest)) := by
  simp only [chars, h, Option.toList_none, List.map_nil, List.nil_append, List.append_assoc]

theorem chars_append_of_some {s : Sign} (h : layout.sign = some s) (rest : List Char) :
    layout.chars ++ rest =
      layout.before ++ s.char :: (layout.between ++ (layout.text ++ (layout.after ++ rest))) := by
  simp only [chars, h, Option.toList_some, List.map_cons, List.map_nil, List.cons_append,
    List.nil_append, List.append_assoc]

theorem fragments_chars_append (h : layout.Valid) (hr : Follows rest) :
    fragments (layout.chars ++ rest) = layout.parts ++ fragments rest := by
  cases hsign : layout.sign with
  | none =>
    rw [chars_append_of_none hsign, fragments_core_append (h.before.append h.between) h.text h.after
      hr, parts, hsign]
    rfl
  | some s =>
    rw [chars_append_of_some hsign, fragments_blanks_sign h.before,
      fragments_core_append h.between h.text h.after hr, parts, hsign]
    rfl

/-! ### Taking an operand off the front -/

theorem takeOperand_parts (layout : Operand.Layout) (tail : List Fragment) :
    takeOperand (layout.parts ++ tail) = some (layout.operand, tail) := by
  unfold parts operand
  cases layout.sign <;> rfl

theorem takeOperand_sound {text : List Char} {operand : Operand} {tail : List Fragment}
    (h : takeOperand (fragments text) = some (operand, tail)) :
    ∃ (layout : Operand.Layout) (rest : List Char), layout.Valid ∧ layout.operand = operand ∧
      text = layout.chars ++ rest ∧ Follows rest ∧ tail = fragments rest := by
  rcases fragments_cases text with ⟨-, hnil⟩ | ⟨before, s, rest, rfl, hb, hsign⟩ |
      ⟨before, core, after, rest, rfl, hb, hc, ha, hr, hcore⟩
  · rw [hnil] at h
    cases h
  · rw [hsign] at h
    -- A sign has been read, so an operand has to follow it.
    rcases fragments_cases rest with ⟨-, hnil⟩ | ⟨between, t, last, rfl, -, hsecond⟩ |
        ⟨between, core, after, last, rfl, hbetween, hc, ha, hr, hcore⟩
    · rw [hnil] at h
      cases h
    · rw [hsecond] at h
      cases h
    · rw [hcore] at h
      cases h
      refine ⟨⟨before, some s, between, core, after⟩, last, ⟨hb, hbetween, hc, ha⟩, rfl, ?_, hr, rfl⟩
      rw [chars_append_of_some rfl]
  · rw [hcore] at h
    cases h
    refine ⟨⟨before, none, [], core, after⟩, rest, ⟨hb, blanks_nil, hc, ha⟩, rfl, ?_, hr, rfl⟩
    rw [chars_append_of_none rfl, List.append_nil]

/-! ### Only one layout -/

theorem parts_append_inj {tail tail' : List Fragment}
    (h : layout.parts ++ tail = other.parts ++ tail') :
    layout.sign = other.sign ∧ layout.text = other.text := by
  unfold parts at h
  cases hsign : layout.sign <;> cases hsign' : other.sign <;> rw [hsign, hsign'] at h <;>
    simp_all

theorem head?_follows (h : Follows rest) : ∀ c, rest.head? = some c → isBlank c = false := by
  rcases h with rfl | ⟨s, last, rfl⟩
  · intro c hc
    cases hc
  · intro c hc
    cases hc
    exact isBlank_sign s

/-- Blanks, an operand and blanks are found again in a text that goes on with a sign. -/
theorem core_append_inj {before before' text after after' : List Char} (hb : Blanks before)
    (hb' : Blanks before') (ht : Core text) (ha : Blanks after) (ha' : Blanks after')
    (hr : Follows rest) (hr' : Follows rest')
    (h : before ++ (text ++ (after ++ rest)) = before' ++ (text ++ (after' ++ rest'))) :
    before = before' ∧ after = after' ∧ rest = rest' := by
  have hfront : ∀ back c, (text ++ back).head? = some c → isBlank c = false := by
    intro back c hc
    cases htext : text with
    | nil => exact absurd htext ht.ne_nil
    | cons d last =>
      rw [htext] at hc
      exact ht.trimmed.head c (by rw [htext]; exact hc)
  obtain ⟨hbefore, hback⟩ := eq_of_append_eq hb hb' (hfront _) (hfront _) h
  obtain ⟨hafter, hrest⟩ := eq_of_append_eq ha ha' (head?_follows hr) (head?_follows hr')
    (List.append_cancel_left hback)
  exact ⟨hbefore, hafter, hrest⟩

theorem merged_unique (h : layout.Valid) (ho : other.Valid) (hr : Follows rest)
    (hr' : Follows rest') (heq : layout.chars ++ rest = other.chars ++ rest') :
    layout.merged = other.merged ∧ rest = rest' := by
  have hparts : layout.parts ++ fragments rest = other.parts ++ fragments rest' := by
    rw [← fragments_chars_append h hr, heq, fragments_chars_append ho hr']
  -- The sign and the operand are fragments, and what is left of the text is blanks.
  obtain ⟨hsign, htext⟩ := parts_append_inj hparts
  cases hs : layout.sign with
  | none =>
    have hs' : other.sign = none := hsign.symm.trans hs
    rw [chars_append_of_none hs, chars_append_of_none hs', ← htext] at heq
    obtain ⟨hbefore, hafter, hrest⟩ := core_append_inj (h.before.append h.between)
      (ho.before.append ho.between) h.text h.after ho.after hr hr' heq
    refine ⟨?_, hrest⟩
    simp only [merged, hs, hs', hbefore, htext, hafter]
  | some s =>
    have hs' : other.sign = some s := hsign.symm.trans hs
    rw [chars_append_of_some hs, chars_append_of_some hs', ← htext] at heq
    have hstop : ∀ back c, (s.char :: back).head? = some c → isBlank c = false :=
      fun back => head?_follows (follows_sign s back)
    obtain ⟨hbefore, hback⟩ := eq_of_append_eq h.before ho.before (hstop _) (hstop _) heq
    obtain ⟨hbetween, hafter, hrest⟩ := core_append_inj h.between ho.between h.text h.after
      ho.after hr hr' (List.cons.inj hback).2
    refine ⟨?_, hrest⟩
    cases layout
    cases other
    simp_all [merged]

end Operand.Layout

/-! ## Formulas -/

/-- A formula in a text. -/
inductive Formula.Layout where
  | single (operand : Operand.Layout)
  | binary (left : Operand.Layout) (operator : Sign) (right : Operand.Layout)

namespace Formula

namespace Layout

def Valid : Layout → Prop
  | single operand => operand.Valid
  | binary left _ right => left.Valid ∧ right.Valid

def chars : Layout → List Char
  | single operand => operand.chars
  | binary left operator right => left.chars ++ operator.char :: right.chars

def formula : Layout → Formula
  | single operand => .single operand.operand
  | binary left operator right => .binary left.operand operator right.operand

def merged : Layout → Layout
  | single operand => .single operand.merged
  | binary left operator right => .binary left.merged operator right.merged

end Layout

theorem fragments_eq_nil_of_follows {rest : List Char} (h : Follows rest)
    (hnil : fragments rest = []) : rest = [] := by
  rcases h with rfl | ⟨s, last, rfl⟩
  · rfl
  · rw [fragments_sign] at hnil
    cases hnil

theorem ofFragments_complete {layout : Layout} (h : layout.Valid) :
    ofFragments (fragments layout.chars) = some layout.formula := by
  cases layout with
  | single operand =>
    have htake := Operand.Layout.takeOperand_parts operand []
    have hparts := Operand.Layout.fragments_chars_append h follows_nil
    rw [List.append_nil] at hparts
    simp only [ofFragments, Layout.chars, Layout.formula, hparts, fragments_nil, htake]
  | binary left operator right =>
    have hsign : fragments (operator.char :: right.chars) = .sign operator :: right.parts := by
      have hright := Operand.Layout.fragments_chars_append h.2 follows_nil
      rw [List.append_nil, fragments_nil, List.append_nil] at hright
      rw [← hright]
      exact fragments_sign operator right.chars
    have hleft := Operand.Layout.fragments_chars_append h.1 (follows_sign operator right.chars)
    have htake := Operand.Layout.takeOperand_parts right []
    rw [List.append_nil] at htake
    simp only [ofFragments, Layout.chars, Layout.formula, hleft, hsign,
      Operand.Layout.takeOperand_parts, htake]

theorem ofFragments_sound {text : List Char} {formula : Formula}
    (h : ofFragments (fragments text) = some formula) :
    ∃ layout : Layout, layout.Valid ∧ layout.chars = text ∧ layout.formula = formula := by
  unfold ofFragments at h
  split at h
  · rename_i operand htake
    cases h
    obtain ⟨layout, rest, hvalid, rfl, rfl, hr, htail⟩ := Operand.Layout.takeOperand_sound htake
    rw [fragments_eq_nil_of_follows hr htail.symm, List.append_nil]
    exact ⟨.single layout, hvalid, rfl, rfl⟩
  · rename_i left operator tail htake
    obtain ⟨layout, rest, hvalid, rfl, rfl, hr, htail⟩ := Operand.Layout.takeOperand_sound htake
    rcases hr with rfl | ⟨s, last, rfl⟩
    · cases htail
    · rw [fragments_sign] at htail
      cases htail
      split at h
      · rename_i right hright
        cases h
        obtain ⟨layout', rest, hvalid', rfl, rfl, hr, htail⟩ :=
          Operand.Layout.takeOperand_sound hright
        rw [fragments_eq_nil_of_follows hr htail.symm, List.append_nil]
        exact ⟨.binary layout operator layout', ⟨hvalid, hvalid'⟩, rfl, rfl⟩
      · cases h
  · cases h

theorem chars_ne_of_operator {operand left right : Operand.Layout} {operator : Sign}
    (h : operand.Valid) (hl : left.Valid) :
    operand.chars ≠ left.chars ++ operator.char :: right.chars := by
  intro heq
  rw [← List.append_nil operand.chars] at heq
  obtain ⟨-, hrest⟩ :=
    Operand.Layout.merged_unique h hl follows_nil (follows_sign operator right.chars) heq
  cases hrest

theorem Layout.merged_unique {layout other : Layout} (h : layout.Valid) (ho : other.Valid)
    (heq : layout.chars = other.chars) : layout.merged = other.merged := by
  have hsingle : ∀ {operand operand' : Operand.Layout}, operand.Valid → operand'.Valid →
      operand.chars = operand'.chars → operand.merged = operand'.merged := by
    intro operand operand' hv hv' hchars
    refine (Operand.Layout.merged_unique hv hv' follows_nil follows_nil ?_).1
    rw [List.append_nil, List.append_nil, hchars]
  cases layout with
  | single operand =>
    cases other with
    | single operand' => exact congrArg Layout.single (hsingle h ho heq)
    | binary left operator right => exact absurd heq (chars_ne_of_operator h ho.1)
  | binary left operator right =>
    cases other with
    | single operand => exact absurd heq.symm (chars_ne_of_operator ho h.1)
    | binary left' operator' right' =>
      obtain ⟨hleft, hrest⟩ := Operand.Layout.merged_unique h.1 ho.1
        (follows_sign operator right.chars) (follows_sign operator' right'.chars) heq
      obtain ⟨hoperator, hright⟩ := List.cons.inj hrest
      have hsame : operator = operator' := by
        have hread := congrArg Sign.ofChar? hoperator
        rw [Sign.ofChar?_char, Sign.ofChar?_char] at hread
        exact Option.some.inj hread
      simp only [merged, hleft, hsame, hsingle h.2 ho.2 hright]

/-! ## Parsing -/

theorem parse_eq_ok_iff {text : String} {formula : Formula} :
    parse text = .ok formula ↔ ofFragments (fragments text.toList) = some formula := by
  have hfragments : (split text.toList).map Fragment.ofPiece = fragments text.toList := rfl
  rw [parse, hfragments]
  cases ofFragments (fragments text.toList) with
  | none => exact ⟨fun h => (by cases h), fun h => (by cases h)⟩
  | some found => rw [Except.ok.injEq, Option.some.injEq]

theorem parse_eq_error {text : String} {fault : Fault} (h : parse text = .error fault) :
    fault = .invalidFormula text none := by
  unfold parse at h
  split at h
  · cases h
  · exact (Except.error.inj h).symm

/-- A text parses as the formula of its layout, which is the only one, and a text that has no
layout is refused. -/
theorem parse_exact (text : String) :
    (∀ formula, parse text = .ok formula ↔
      ∃ layout : Layout, layout.Valid ∧ layout.chars = text.toList ∧ layout.formula = formula) ∧
    (∀ layout other : Layout, layout.Valid → other.Valid → layout.chars = text.toList →
      other.chars = text.toList → layout.merged = other.merged) ∧
    ((∀ layout : Layout, layout.Valid → layout.chars ≠ text.toList) →
      parse text = .error (.invalidFormula text none)) := by
  have hparse : ∀ formula, parse text = .ok formula ↔
      ∃ layout : Layout, layout.Valid ∧ layout.chars = text.toList ∧
        layout.formula = formula := by
    intro formula
    rw [parse_eq_ok_iff]
    constructor
    · exact ofFragments_sound
    · rintro ⟨layout, hvalid, hchars, rfl⟩
      rw [← hchars]
      exact ofFragments_complete hvalid
  refine ⟨hparse, fun layout other h ho hchars hchars' => ?_, fun hnone => ?_⟩
  · exact Layout.merged_unique h ho (hchars.trans hchars'.symm)
  · cases hresult : parse text with
    | ok formula =>
      obtain ⟨layout, hvalid, hchars, -⟩ := (hparse formula).mp hresult
      exact absurd hchars (hnone layout hvalid)
    | error fault => rw [parse_eq_error hresult]

/-- A sign where an operand is expected belongs to the operand; a second one there does not. -/
example : parse "A1 + -2" = .ok (.binary ⟨.plus, "A1"⟩ .plus ⟨.minus, "2"⟩) ∧
    parse "A1 + - -2" = .error (.invalidFormula "A1 + - -2" none) := ⟨rfl, rfl⟩

end Formula
end Worksheet
