/-
Whole numbers, read exactly.

A literal is digits with one sign or none, and it is rounded before it is tested for its size.  The
test decides the exact number all the same, so that a literal of any length is read as the number
that it spells or not at all (`parse?_exact`).  What is written for a safe number is such a literal.
-/
import Worksheet.Proofs.Binary64.Shortest
import Worksheet.Proofs.Decimal.Numeral
import Worksheet.Proofs.Equation

namespace Worksheet

open Binary64 Decimal

namespace Text

theorem isBlank_of_isDigit {c : Char} (h : c.isDigit = true) : isBlank c = false := by
  have hall : ∀ n ∈ List.range 10, isBlank (Nat.digitChar n) = false := by decide
  obtain ⟨hless, hchar⟩ := digitChar_of_isDigit h
  rw [← hchar]
  exact hall _ (List.mem_range.mpr hless)

theorem trim_of_no_blanks {text : List Char} (h : ∀ c ∈ text, isBlank c = false) :
    trim text = text := by
  have htrimmed : Trimmed text :=
    ⟨fun c hc => h c (List.mem_of_head? hc), fun c hc => h c (List.mem_of_getLast? hc)⟩
  exact htrimmed.trim_eq

theorem ends_of_blanks {text : List Char} (h : Blanks text) : Ends text := by
  intro c hc
  have hblank : isBlank c = true := h c (List.mem_of_head? hc)
  refine ⟨?_, ?_, ?_, ?_⟩
  · rw [← Bool.not_eq_true]
    intro hdigit
    rw [isBlank_of_isDigit hdigit] at hblank
    cases hblank
  all_goals
    rintro rfl
    cases hblank

end Text

namespace Literal

/-- The text is digits, behind one sign or none. -/
structure Spells (text : List Char) (sign : Option Sign) (digits : List Char) : Prop where
  text_eq : text = sign.toList.map Sign.char ++ digits
  digits_ne_nil : digits ≠ []
  isDigit : Digits digits

/-- The exact number of digits behind a sign.  No sign counts as a plus. -/
def number (sign : Option Sign) (digits : List Char) : Int :=
  (sign.getD .plus).applyExact (Decimal.value digits)

theorem natAbs_number (sign : Option Sign) (digits : List Char) :
    (number sign digits).natAbs = Decimal.value digits := by
  unfold number
  cases sign.getD .plus with
  | plus => exact Int.natAbs_natCast _
  | minus =>
    show (-(Decimal.value digits : Int)).natAbs = _
    omega

/-! ## The number that a text spells -/

variable {text digits : List Char}

theorem takeSign_char (s : Sign) (rest : List Char) : takeSign (s.char :: rest) = (s, rest) := by
  cases s <;> rfl

theorem takeSign_digits (h : Digits digits) : takeSign digits = (.plus, digits) := by
  have hsign : ∀ s : Sign, digits.head? ≠ some s.char := by
    intro s hhead
    have hdigit := h _ (List.mem_of_head? hhead)
    cases s <;> exact absurd hdigit (by decide)
  unfold takeSign
  split
  · exact absurd rfl (hsign .plus)
  · exact absurd rfl (hsign .minus)
  · rfl

theorem exists_of_takeSign {s : Sign} (h : takeSign text = (s, digits)) :
    ∃ sign : Option Sign, sign.getD .plus = s ∧ text = sign.toList.map Sign.char ++ digits := by
  unfold takeSign at h
  split at h
  · cases h
    exact ⟨some .plus, rfl, rfl⟩
  · cases h
    exact ⟨some .minus, rfl, rfl⟩
  · cases h
    exact ⟨none, rfl, rfl⟩

theorem Spells.takeSign_eq {sign : Option Sign} (h : Spells text sign digits) :
    takeSign text = (sign.getD .plus, digits) := by
  rw [h.text_eq]
  cases sign with
  | none => exact takeSign_digits h.isDigit
  | some s => exact takeSign_char s digits

theorem spelled?_of_takeSign {s : Sign} (h : takeSign text = (s, digits)) :
    spelled? text =
      if digits ≠ [] ∧ digits.all Char.isDigit = true then some (s.applyExact (Decimal.value digits))
      else none := by
  unfold spelled?
  rw [h]
  cases digits with
  | nil => rfl
  | cons d rest =>
    by_cases hall : (d :: rest).all Char.isDigit = true
    · rw [if_pos ⟨List.cons_ne_nil d rest, hall⟩]
      show (if (d :: rest).all Char.isDigit = true then _ else none) = _
      rw [if_pos hall]
      cases s <;> rfl
    · rw [if_neg fun h => hall h.2]
      exact if_neg hall

theorem spelled?_eq_some_iff {n : Int} : spelled? text = some n ↔
    ∃ sign digits, Spells text sign digits ∧ number sign digits = n := by
  constructor
  · intro h
    cases htake : takeSign text with | _ s digits
    rw [spelled?_of_takeSign htake] at h
    obtain ⟨sign, rfl, htext⟩ := exists_of_takeSign htake
    by_cases hform : digits ≠ [] ∧ digits.all Char.isDigit = true
    · rw [if_pos hform] at h
      exact ⟨sign, digits, ⟨htext, hform.1, List.all_eq_true.mp hform.2⟩, Option.some.inj h⟩
    · rw [if_neg hform] at h
      cases h
  · intro h
    obtain ⟨sign, digits, hspells, hn⟩ := h
    rw [spelled?_of_takeSign hspells.takeSign_eq,
      if_pos ⟨hspells.digits_ne_nil, List.all_eq_true.mpr hspells.isDigit⟩, ← hn, number]

/-! ## Reading -/

theorem parse?_trim (text : List Char) : parse? (Text.trim text) = parse? text := by
  rw [parse?, parse?, Text.trim_trim]

theorem parse?_of_spells {sign : Option Sign} (h : Spells (Text.trim text) sign digits) :
    parse? text = if (ofInt (number sign digits)).isSafe then some (ofInt (number sign digits))
      else none := by
  simp only [parse?, spelled?_eq_some_iff.mpr ⟨sign, digits, h, rfl⟩]

theorem parse?_eq_some_iff {x : Binary64} : parse? text = some x ↔
    ∃ sign digits, Spells (Text.trim text) sign digits ∧ Decimal.value digits ≤ maxSafe ∧
      x = ofInt (number sign digits) := by
  constructor
  · intro h
    unfold parse? at h
    cases hspelled : spelled? (Text.trim text) with
    | none => simp [hspelled] at h
    | some n =>
      obtain ⟨sign, digits, hspells, hn⟩ := spelled?_eq_some_iff.mp hspelled
      by_cases hsafe : (ofInt n).isSafe = true
      · simp only [hspelled, hsafe, if_true, Option.some.injEq] at h
        have hbound := (isSafe_ofInt_iff n).mp hsafe
        rw [← hn, natAbs_number] at hbound
        exact ⟨sign, digits, hspells, hbound, by rw [hn, h]⟩
      · simp [hspelled, hsafe] at h
  · intro h
    obtain ⟨sign, digits, hspells, hbound, hx⟩ := h
    have hsafe : (ofInt (number sign digits)).isSafe = true := by
      rw [isSafe_ofInt_iff, natAbs_number]
      exact hbound
    rw [parse?_of_spells hspells, if_pos hsafe, hx]

theorem represents_number {sign : Option Sign} (h : Decimal.value digits ≤ maxSafe) :
    Represents (ofInt (number sign digits)) (number sign digits) :=
  ⟨rfl, by rwa [natAbs_number]⟩

/-! ## Writing -/

theorem intText_spells (n : Int) :
    ∃ sign, Spells (intText n) sign (digitsOf n.natAbs) ∧
      number sign (digitsOf n.natAbs) = n := by
  have hform : ∀ sign : Option Sign, intText n = sign.toList.map Sign.char ++ digitsOf n.natAbs →
      Spells (intText n) sign (digitsOf n.natAbs) :=
    fun sign htext => ⟨htext, Nat.toDigits_ne_nil, digits_digitsOf _⟩
  unfold number
  rw [value_digitsOf]
  by_cases hneg : n < 0
  · refine ⟨some .minus, hform _ (if_pos hneg), ?_⟩
    show -(n.natAbs : Int) = n
    omega
  · refine ⟨none, hform _ (if_neg hneg), ?_⟩
    show (n.natAbs : Int) = n
    omega

theorem trim_intText (n : Int) : Text.trim (intText n) = intText n := by
  obtain ⟨sign, hspells, -⟩ := intText_spells n
  refine Text.trim_of_no_blanks fun c hc => ?_
  rw [hspells.text_eq] at hc
  rcases List.mem_append.mp hc with hsign | hdigit
  · obtain ⟨s, -, hs⟩ := List.mem_map.mp hsign
    rw [← hs]
    cases s <;> rfl
  · exact Text.isBlank_of_isDigit (hspells.isDigit c hdigit)

/-- The text of a safe number is read as the number, and that of the negative zero as zero. -/
theorem parse?_textChars {x : Binary64} {n : Int} (h : x.safeInt? = some n) :
    parse? x.textChars = some (ofInt n) := by
  obtain ⟨sign, hspells, hnumber⟩ := intText_spells n
  rw [textChars_of_safe h, parse?_eq_some_iff, trim_intText]
  refine ⟨sign, _, hspells, ?_, by rw [hnumber]⟩
  rw [value_digitsOf]
  exact (safeInt?_eq_some_iff.mp h).2

/-- A number that does not start with a plus sign. -/
theorem Spells.eq_minus {sign : Option Sign} {c : Char} {rest : List Char}
    (h : Spells (c :: rest) sign digits) (hc : c = '-' ∨ c.isDigit = true) :
    ∃ negative, c :: rest = minus negative ++ digits := by
  have htext := h.text_eq
  cases sign with
  | none => exact ⟨false, htext⟩
  | some s =>
    cases s with
    | minus => exact ⟨true, htext⟩
    | plus =>
      have hplus : c = '+' := (List.cons.inj htext).1
      rw [hplus] at hc
      exact absurd hc (by decide)

/-- The text of a number that is not safe is refused. -/
theorem parse?_textChars_of_not_safe {negative : Bool} {units : Nat} {fits : Fits units}
    (h : (Binary64.finite negative units fits).safeInt? = none) :
    parse? (Binary64.finite negative units fits).textChars = none := by
  cases hparse : parse? (Binary64.finite negative units fits).textChars with
  | none => rfl
  | some y =>
    obtain ⟨sign, digits, hspells, hbound, -⟩ := parse?_eq_some_iff.mp hparse
    have hnonzero : Binary64.finite negative units fits ≠ zero true := by
      intro hzero
      rw [hzero, zero, safeInt?_zero] at h
      cases h
    obtain ⟨d, hscan, hround⟩ := scan_textChars hnonzero ends_nil
    obtain ⟨c, more, htext, hhead⟩ := head_textChars negative units fits
    rw [List.append_nil, htext] at hscan
    -- Blanks could stand behind the number only, and the scan of the text would stop at them.
    have hplain : Text.isBlank c = false := by
      rcases hhead with rfl | hdigit
      · rfl
      · exact Text.isBlank_of_isDigit hdigit
    obtain ⟨after, hmore, hafter, -⟩ := Text.exists_eq_trimEnd more
    rw [htext, Text.trim_cons hplain] at hspells
    obtain ⟨sign', hminus⟩ := hspells.eq_minus hhead
    have hsplit : c :: more = minus sign' ++ (digits ++ after) := by
      rw [← List.append_assoc, ← hminus, List.cons_append, ← hmore]
    rw [hsplit] at hscan
    have hfound := eq_of_scan_whole hspells.isDigit hspells.digits_ne_nil
      (Text.ends_of_blanks hafter) hscan
    have hd : d = ⟨sign', Decimal.value digits, 0⟩ := congrArg Prod.fst hfound
    have hsafe := isSafe_round sign' hbound
    rw [← hd, hround, isSafe, h] at hsafe
    cases hsafe

/-- A text is read as a number exactly if, between blanks, it spells one that is safe, and the
number is then that one and never the negative zero.  Every other text is refused, and the text of
each safe number is read as that number. -/
theorem parse?_exact (text : String) :
    (∀ x, parse? text.toList = some x ↔
      ∃ sign digits, Spells (Text.trim text.toList) sign digits ∧
        Decimal.value digits ≤ maxSafe ∧ x.toInt? = some (number sign digits) ∧ x ≠ zero true) ∧
    (parse? text.toList = none ↔
      ∀ sign digits, Spells (Text.trim text.toList) sign digits →
        maxSafe < Decimal.value digits) ∧
    ∀ x n, safeInt? x = some n → parse? x.text.toList = some (ofInt n) := by
  refine ⟨fun x => ?_, ?_, fun x n h => ?_⟩
  · rw [parse?_eq_some_iff]
    constructor
    · intro h
      obtain ⟨sign, digits, hspells, hbound, hx⟩ := h
      have hexact : Represents x (number sign digits) := hx ▸ represents_number hbound
      exact ⟨sign, digits, hspells, hbound, hexact.toInt?_eq, hexact.ne_negative_zero⟩
    · intro h
      obtain ⟨sign, digits, hspells, hbound, hx, hzero⟩ := h
      have hsafe : (number sign digits).natAbs ≤ maxSafe := by rwa [natAbs_number]
      have hexact := represents_of_safeInt? (safeInt?_eq_some_iff.mpr ⟨hx, hsafe⟩) hzero
      exact ⟨sign, digits, hspells, hbound, hexact.eq_ofInt⟩
  · constructor
    · intro hnone sign digits hspells
      by_contra hsafe
      rw [parse?_eq_some_iff.mpr ⟨sign, digits, hspells, Nat.le_of_not_lt hsafe, rfl⟩] at hnone
      cases hnone
    · intro hlarge
      cases hparse : parse? text.toList with
      | none => rfl
      | some x =>
        obtain ⟨sign, digits, hspells, hbound, -⟩ := parse?_eq_some_iff.mp hparse
        exact absurd (hlarge sign digits hspells) (Nat.not_lt.mpr hbound)
  · rw [Binary64.text, String.toList_ofList]
    exact parse?_textChars h

/-- The largest safe number behind zeros and blanks, and the next number, which a double holds. -/
example : parse? "\t-0009007199254740991 ".toList = some (.ofInt (-9007199254740991)) ∧
    parse? "9007199254740992".toList = none ∧ parse? "-0".toList = some 0 := by decide +kernel

end Literal
end Worksheet
