/-
What the text of a cell says, however it is spelled.

Blanks, the case of letters and zeros in front of a number are spelling.  An edit changes one of
them in one place, and edits are made in terms, in formulas and in texts of cells.  The gist of a
text is what is left of it: of a formula its signs and what stands between them, of a reference the
position and of a literal the number.  No edit changes the gist, and neither does any number of
them (`Text.Respells.gist_eq`).
-/
import Worksheet.Proofs.Formula.Split
import Worksheet.Proofs.Formula.Literal
import Worksheet.Proofs.Label.RoundTrip

namespace Worksheet

open Text Formula

/-! ## Terms -/

/-- What an operand stands for.  Of a fault only its kind counts. -/
inductive Sense where
  | literal (x : Binary64)
  | reference (position : Position)
  | faulty (name : String)
  deriving DecidableEq

namespace Term

/-- Other letters of the same reference, or one more zero in front of its row or of a literal. -/
inductive Edit : List Char → List Char → Prop
  | case (letters digits letters' : List Char)
      (h : CellLabel.Spells (letters ++ digits) letters digits)
      (hcase : letters'.map Char.toUpper = letters.map Char.toUpper) :
      Edit (letters ++ digits) (letters' ++ digits)
  | row (letters digits : List Char) (h : CellLabel.Spells (letters ++ digits) letters digits) :
      Edit (letters ++ digits) (letters ++ '0' :: digits)
  | literal {digits : List Char} (hne : digits ≠ []) (h : Decimal.Digits digits) :
      Edit digits ('0' :: digits)

/-- Two labels of one position, or two numerals of one number. -/
inductive Alike (text text' : List Char) : Prop
  | labels {letters digits letters' digits' : List Char} (h : CellLabel.Spells text letters digits)
      (h' : CellLabel.Spells text' letters' digits')
      (hcase : letters'.map Char.toUpper = letters.map Char.toUpper)
      (hrow : Decimal.value digits' = Decimal.value digits)
  | numerals (hne : text ≠ []) (hne' : text' ≠ []) (h : Decimal.Digits text)
      (h' : Decimal.Digits text') (hvalue : Decimal.value text' = Decimal.value text)

variable {text text' : List Char}

theorem Edit.alike (h : Edit text text') : Alike text text' := by
  cases h with
  | case letters digits letters' h hcase =>
    have hne : letters' ≠ [] := by
      rw [ne_eq, ← List.map_eq_nil_iff, hcase, List.map_eq_nil_iff]
      exact h.letters_ne_nil
    have halpha := ColumnLabel.isAlpha_of_case hcase h.isAlpha
    exact .labels h ⟨rfl, hne, halpha, h.digits_ne_nil, h.isDigit⟩ hcase rfl
  | row letters digits h =>
    exact .labels h ⟨rfl, h.letters_ne_nil, h.isAlpha, List.cons_ne_nil _ _,
      Decimal.digits_zero_cons h.isDigit⟩ rfl (Decimal.value_zero_cons _)
  | literal hne h =>
    exact .numerals hne (List.cons_ne_nil _ _) h (Decimal.digits_zero_cons h)
      (Decimal.value_zero_cons _)

/-! ### The characters of a term -/

theorem plain_of_isAlphanum {c : Char} (h : c.isAlphanum = true) :
    isBlank c = false ∧ Sign.ofChar? c = none ∧ c ≠ '=' := by
  have hall : ∀ n ∈ List.range 123, (Char.ofNat n).isAlphanum = true →
      isBlank (Char.ofNat n) = false ∧ Sign.ofChar? (Char.ofNat n) = none ∧ Char.ofNat n ≠ '=' := by
    decide +kernel
  have hless : c.toNat < 123 := by
    rcases (Bool.or_eq_true _ _).mp h with halpha | hdigit
    · exact ColumnLabel.toNat_lt_of_isAlpha halpha
    · have hlast : c.toNat ≤ 57 := (Char.isDigit_iff_toNat.mp hdigit).2
      omega
  exact ColumnLabel.char_of_toNat_lt (P := fun d => d.isAlphanum = true →
    isBlank d = false ∧ Sign.ofChar? d = none ∧ d ≠ '=') hall hless h

theorem isAlphanum_of_label {letters digits : List Char}
    (h : CellLabel.Spells text letters digits) : ∀ c ∈ text, c.isAlphanum = true := by
  intro c hc
  rw [h.text_eq] at hc
  rcases List.mem_append.mp hc with hletter | hdigit
  · exact (Bool.or_eq_true _ _).mpr (.inl (h.isAlpha c hletter))
  · exact (Bool.or_eq_true _ _).mpr (.inr (h.isDigit c hdigit))

theorem isAlphanum_of_digits (h : Decimal.Digits text) : ∀ c ∈ text, c.isAlphanum = true :=
  fun c hc => (Bool.or_eq_true _ _).mpr (.inr (h c hc))

theorem Alike.isAlphanum (h : Alike text text') :
    (∀ c ∈ text, c.isAlphanum = true) ∧ ∀ c ∈ text', c.isAlphanum = true := by
  cases h with
  | labels h h' => exact ⟨isAlphanum_of_label h, isAlphanum_of_label h'⟩
  | numerals _ _ h h' => exact ⟨isAlphanum_of_digits h, isAlphanum_of_digits h'⟩

theorem plain_of_signed (sign : Option Sign) (h : ∀ c ∈ text, c.isAlphanum = true) :
    ∀ c ∈ sign.toList.map Sign.char ++ text, isBlank c = false ∧ c ≠ '=' := by
  intro c hc
  rcases List.mem_append.mp hc with hsign | htext
  · obtain ⟨s, -, rfl⟩ := List.mem_map.mp hsign
    cases s <;> decide
  · obtain ⟨hblank, -, hequals⟩ := plain_of_isAlphanum (h c htext)
    exact ⟨hblank, hequals⟩

theorem trim_signed (sign : Option Sign) (h : ∀ c ∈ text, c.isAlphanum = true) :
    trim (sign.toList.map Sign.char ++ text) = sign.toList.map Sign.char ++ text :=
  trim_of_no_blanks fun c hc => (plain_of_signed sign h c hc).1

theorem core_of_isAlphanum (hne : text ≠ []) (h : ∀ c ∈ text, c.isAlphanum = true) :
    Core text :=
  ⟨hne, fun c hc => (plain_of_isAlphanum (h c hc)).2.1,
    fun c hc => (plain_of_isAlphanum (h c (List.mem_of_head? hc))).1,
    fun c hc => (plain_of_isAlphanum (h c (List.mem_of_getLast? hc))).1⟩

theorem Alike.core (h : Alike text text') : Core text ∧ Core text' := by
  obtain ⟨hleft, hright⟩ := h.isAlphanum
  have hne : text ≠ [] ∧ text' ≠ [] := by
    cases h with
    | labels h h' =>
      rw [h.text_eq, h'.text_eq]
      exact ⟨List.append_ne_nil_of_left_ne_nil h.letters_ne_nil _,
        List.append_ne_nil_of_left_ne_nil h'.letters_ne_nil _⟩
    | numerals hne hne' => exact ⟨hne, hne'⟩
  exact ⟨core_of_isAlphanum hne.1 hleft, core_of_isAlphanum hne.2 hright⟩

/-! ### The sense of a term -/

def sense (text : List Char) : Sense :=
  match parse (String.ofList text) with
  | .ok (.literal x) => .literal x
  | .ok (.reference _ position) => .reference position
  | .error fault => .faulty fault.name

theorem sense_of_label {letters digits : List Char} (h : CellLabel.Spells text letters digits) :
    ∃ position, CellLabel.toPosition (String.ofList text) = .ok position ∧
      sense text = .reference position := by
  have hspells : CellLabel.Spells (String.ofList text).toList letters digits := by
    rwa [String.toList_ofList]
  obtain ⟨x, hposition, -⟩ := CellLabel.toPosition_of_spells hspells
  refine ⟨_, hposition, ?_⟩
  simp only [sense, parse, if_pos (CellLabel.isLabel_iff.mpr ⟨_, _, hspells⟩), hposition]

theorem not_isLabel_of_digits (h : Decimal.Digits text) :
    ¬ CellLabel.isLabel (String.ofList text) = true := by
  rw [CellLabel.isLabel_iff, String.toList_ofList]
  rintro ⟨letters, digits, hspells⟩
  obtain ⟨c, hc⟩ := List.exists_mem_of_ne_nil letters hspells.letters_ne_nil
  have hin : c ∈ text := hspells.text_eq ▸ List.mem_append_left digits hc
  exact CellLabel.not_isAlpha_of_isDigit (h c hin) (hspells.isAlpha c hc)

theorem sense_of_digits (h : Decimal.Digits text) : sense text =
    match Literal.parse? text with
    | some x => .literal x
    | none => .faulty (Fault.invalidToken "").name := by
  simp only [sense, parse, if_neg (not_isLabel_of_digits h), String.toList_ofList]
  cases Literal.parse? text <;> rfl

theorem parse?_of_label {letters digits : List Char} (h : CellLabel.Spells text letters digits)
    (sign : Option Sign) : Literal.parse? (sign.toList.map Sign.char ++ text) = none := by
  have htrim := trim_signed sign (isAlphanum_of_label h)
  obtain ⟨c, hc⟩ := List.exists_mem_of_ne_nil letters h.letters_ne_nil
  have halpha : c.isAlpha = true := h.isAlpha c hc
  have hin : c ∈ sign.toList.map Sign.char ++ text := by
    rw [h.text_eq]
    exact List.mem_append_right _ (List.mem_append_left _ hc)
  cases hparse : Literal.parse? (sign.toList.map Sign.char ++ text) with
  | none => rfl
  | some x =>
    -- The letter would have to be a sign or a digit.
    obtain ⟨sign', digits', hspells, -⟩ := Literal.parse?_eq_some_iff.mp hparse
    rw [htrim] at hspells
    rw [hspells.text_eq] at hin
    rcases List.mem_append.mp hin with hsign | hdigit
    · obtain ⟨s, -, rfl⟩ := List.mem_map.mp hsign
      cases s <;> exact absurd halpha (by decide)
    · exact absurd halpha (CellLabel.not_isAlpha_of_isDigit (hspells.isDigit c hdigit))

theorem spells_signed (sign : Option Sign) (hne : text ≠ []) (h : Decimal.Digits text) :
    Literal.Spells (trim (sign.toList.map Sign.char ++ text)) sign text := by
  rw [trim_signed sign (isAlphanum_of_digits h)]
  exact ⟨rfl, hne, h⟩

/-- A text with a letter in it is no number, and the numerals of one number are read alike. -/
theorem Alike.parse?_eq (h : Alike text text') (sign : Option Sign) :
    Literal.parse? (sign.toList.map Sign.char ++ text') =
      Literal.parse? (sign.toList.map Sign.char ++ text) := by
  cases h with
  | labels h h' => rw [parse?_of_label h, parse?_of_label h']
  | numerals hne hne' h h' hvalue =>
    rw [Literal.parse?_of_spells (spells_signed sign hne h),
      Literal.parse?_of_spells (spells_signed sign hne' h'), Literal.number, Literal.number, hvalue]

theorem Alike.sense_eq (h : Alike text text') : sense text' = sense text := by
  cases h with
  | labels h h' hcase hrow =>
    obtain ⟨position, hposition, hsense⟩ := sense_of_label h
    obtain ⟨position', hposition', hsense'⟩ := sense_of_label h'
    rw [← String.toList_ofList (l := text)] at h
    rw [← String.toList_ofList (l := text')] at h'
    rw [CellLabel.toPosition_congr h h' hcase hrow, hposition] at hposition'
    rw [hsense, hsense', Except.ok.inj hposition']
  | numerals hne hne' h h' hvalue =>
    have hparse : Literal.parse? text' = Literal.parse? text :=
      (Alike.numerals hne hne' h h' hvalue).parse?_eq none
    rw [sense_of_digits h, sense_of_digits h', hparse]

end Term

/-! ## Formulas -/

namespace Formula

/-- More blanks, or an edit of an operand, anywhere between the signs of a formula. -/
inductive Edit : List Char → List Char → Prop
  | before {blanks : List Char} (h : Blanks blanks) (text : List Char) : Edit text (blanks ++ text)
  | after (text : List Char) {blanks : List Char} (h : Blanks blanks) : Edit text (text ++ blanks)
  | operand {before text text' after : List Char} (hb : Blanks before) (ha : Blanks after)
      (h : Term.Edit text text') : Edit (before ++ (text ++ after)) (before ++ (text' ++ after))
  | left {front front' : List Char} (h : Edit front front') (s : Sign) (back : List Char) :
      Edit (front ++ s.char :: back) (front' ++ s.char :: back)
  | right (front : List Char) (s : Sign) {back back' : List Char} (h : Edit back back') :
      Edit (front ++ s.char :: back) (front ++ s.char :: back')

def Fragment.sense : Fragment → Sign ⊕ Sense
  | .sign s => .inl s
  | .operand text => .inr (Term.sense text)

/-- The signs of a formula, and what stands between them. -/
def senses (text : List Char) : List (Sign ⊕ Sense) := (fragments text).map Fragment.sense

theorem senses_append_sign (front : List Char) (s : Sign) (back : List Char) :
    senses (front ++ s.char :: back) = senses front ++ .inl s :: senses back := by
  rw [senses, fragments_append_sign, List.map_append, List.map_cons]
  rfl

theorem senses_operand {before text after : List Char} (hb : Blanks before) (h : Core text)
    (ha : Blanks after) : senses (before ++ (text ++ after)) = [.inr (Term.sense text)] := by
  rw [senses, fragments_core hb h ha]
  rfl

theorem senses_of_edit {text text' : List Char} (h : Edit text text') :
    senses text' = senses text := by
  induction h with
  | before h text => rw [senses, fragments_blanks_append h, senses]
  | after text h => rw [senses, fragments_append_blanks text h, senses]
  | operand hb ha h =>
    obtain ⟨hcore, hcore'⟩ := h.alike.core
    rw [senses_operand hb hcore ha, senses_operand hb hcore' ha, h.alike.sense_eq]
  | left h s back ih => rw [senses_append_sign, senses_append_sign, ih]
  | right front s h ih => rw [senses_append_sign, senses_append_sign, ih]

end Formula

/-! ## Texts of cells -/

/-- What a cell says: nothing, a formula, or a number if it is one. -/
inductive Gist where
  | blank
  | formula (senses : List (Sign ⊕ Sense))
  | number (value : Option Binary64)
  deriving DecidableEq

namespace Text

/-- More blanks, or an edit of the formula behind the equals sign or of a number. -/
inductive Edit : List Char → List Char → Prop
  | before {blanks : List Char} (h : Blanks blanks) (text : List Char) : Edit text (blanks ++ text)
  | after (text : List Char) {blanks : List Char} (h : Blanks blanks) : Edit text (text ++ blanks)
  | formula {before text text' : List Char} (hb : Blanks before) (h : Formula.Edit text text') :
      Edit (before ++ '=' :: text) (before ++ '=' :: text')
  | term {before text text' after : List Char} (hb : Blanks before) (ha : Blanks after)
      (sign : Option Sign) (h : Term.Edit text text') :
      Edit (before ++ (sign.toList.map Sign.char ++ text ++ after))
        (before ++ (sign.toList.map Sign.char ++ text' ++ after))

def gist (text : List Char) : Gist :=
  match trim text with
  | [] => .blank
  | '=' :: formula => .formula (senses formula)
  | number => .number (Literal.parse? number)

theorem gist_of_trim_eq {text text' : List Char} (h : trim text' = trim text) :
    gist text' = gist text := by
  rw [gist, gist, h]

theorem gist_formula {before : List Char} (hb : Blanks before) (text : List Char) :
    gist (before ++ '=' :: text) = .formula (senses text) := by
  obtain ⟨rest, htrim, hfragments⟩ := exists_trim_equals hb text
  unfold gist
  rw [htrim]
  show Gist.formula (senses rest) = .formula (senses text)
  rw [senses, hfragments, senses]

theorem gist_number {before text after : List Char} (hb : Blanks before) (ha : Blanks after)
    (sign : Option Sign) (hne : text ≠ []) (h : ∀ c ∈ text, c.isAlphanum = true) :
    gist (before ++ (sign.toList.map Sign.char ++ text ++ after)) =
      .number (Literal.parse? (sign.toList.map Sign.char ++ text)) := by
  have htrim : trim (before ++ (sign.toList.map Sign.char ++ text ++ after)) =
      sign.toList.map Sign.char ++ text := by
    rw [trim_blanks_append hb, trim_append_blanks _ ha, Term.trim_signed sign h]
  unfold gist
  rw [htrim]
  split
  · rename_i hnil
    exact absurd (List.append_eq_nil_iff.mp hnil).2 hne
  · rename_i rest hequals
    have hin : '=' ∈ sign.toList.map Sign.char ++ text := hequals ▸ List.mem_cons_self
    exact absurd rfl (Term.plain_of_signed sign h '=' hin).2
  · rfl

theorem gist_of_edit {text text' : List Char} (h : Edit text text') : gist text' = gist text := by
  cases h with
  | before h text => exact gist_of_trim_eq (trim_blanks_append h text)
  | after text h => exact gist_of_trim_eq (trim_append_blanks text h)
  | formula hb h => rw [gist_formula hb, gist_formula hb, senses_of_edit h]
  | term hb ha sign h =>
    obtain ⟨hcore, hcore'⟩ := h.alike.core
    obtain ⟨hplain, hplain'⟩ := h.alike.isAlphanum
    rw [gist_number hb ha sign hcore.ne_nil hplain, gist_number hb ha sign hcore'.ne_nil hplain',
      h.alike.parse?_eq sign]

/-- The texts are joined by any number of edits, made or taken back. -/
def Respells (text text' : String) : Prop := Relation.EqvGen Edit text.toList text'.toList

theorem Respells.gist_eq {text text' : String} (h : Respells text text') :
    gist text'.toList = gist text.toList := by
  unfold Respells at h
  generalize text.toList = chars, text'.toList = chars' at h ⊢
  induction h with
  | rel text text' h => exact gist_of_edit h
  | refl text => rfl
  | symm text text' _ ih => exact ih.symm
  | trans text middle text' _ _ ih ih' => exact ih'.trans ih

/-- Two spellings of one formula.  In a number no blank may stand behind the sign. -/
example : gist " = b1 +03".toList = gist "=B01+ 3".toList ∧
    gist "- 5".toList = .number none := by decide +kernel

end Text
end Worksheet
