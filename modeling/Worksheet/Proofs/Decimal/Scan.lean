/-
Reading back what is written of a number.

`Decimal.scan` takes the parts of a number one after the other, so each part is read back by
itself, in front of anything that cannot go on with it.  A layout of digits is read as the decimal
with these digits and this point, up to a power of ten that is counted in the digits instead of
the exponent (`scan_layout`), which rounding does not see.
-/
import Worksheet.Proofs.Decimal.Round
import Worksheet.Proofs.Text.Trim

namespace Worksheet
namespace Decimal

open Binary64

/-- What follows cannot go on with a number. -/
def Ends (rest : List Char) : Prop :=
  ∀ c, rest.head? = some c → c.isDigit = false ∧ c ≠ '.' ∧ c ≠ 'e' ∧ c ≠ 'E'

def Digits (text : List Char) : Prop := ∀ c ∈ text, c.isDigit = true

variable {digits whole fraction rest : List Char}

theorem ends_nil : Ends [] := fun c hc => (by cases hc)

theorem digits_digitsOf (n : Nat) : Digits (digitsOf n) := fun _ hc => isDigit_of_mem_digitsOf hc

theorem Digits.append {front back : List Char} (hf : Digits front) (hb : Digits back) :
    Digits (front ++ back) := fun c hc => (List.mem_append.mp hc).elim (hf c) (hb c)

theorem digits_zeros (n : Nat) : Digits (List.replicate n '0') := by
  intro c hc
  rw [List.eq_of_mem_replicate hc]
  rfl

/-! ## The parts of a number -/

theorem scanDigits_append (h : Digits digits)
    (hrest : ∀ c, rest.head? = some c → c.isDigit = false) :
    scanDigits (digits ++ rest) = (digits, rest) := by
  have htake : rest.takeWhile Char.isDigit = [] := by
    cases rest with
    | nil => rfl
    | cons c rest => exact List.takeWhile_cons_of_neg (by simp [hrest c rfl])
  rw [scanDigits, Text.dropWhile_append_eq h hrest, List.takeWhile_append_of_pos h, htake,
    List.append_nil]

theorem scanWhole_append (h : Digits digits) (hne : digits ≠ [])
    (hlead : digits.head? = some '0' → digits = ['0'])
    (hrest : ∀ c, rest.head? = some c → c.isDigit = false) :
    scanWhole (digits ++ rest) = some (digits, rest) := by
  unfold scanWhole
  rw [scanDigits_append h hrest]
  cases digits with
  | nil => exact absurd rfl hne
  | cons d others =>
    by_cases hd : d = '0'
    · subst hd
      have hothers : others = [] := List.tail_eq_of_cons_eq (hlead rfl)
      rw [hothers]
      rfl
    · split
      · rename_i heq
        cases heq
      · rename_i heq
        cases heq
        exact absurd rfl hd
      · rename_i heq
        cases heq
        exact absurd rfl hd
      · rfl

theorem scanFraction_point (h : Digits digits) (hne : digits ≠ [])
    (hrest : ∀ c, rest.head? = some c → c.isDigit = false) :
    scanFraction ('.' :: (digits ++ rest)) = some (digits, rest) := by
  rw [scanFraction, scanDigits_append h hrest]
  cases digits with
  | nil => exact absurd rfl hne
  | cons d others => rfl

theorem scanFraction_of_no_point (h : ∀ c, rest.head? = some c → c ≠ '.') :
    scanFraction rest = some ([], rest) := by
  unfold scanFraction
  split
  · exact absurd rfl (h '.' rfl)
  · rfl

theorem scanExponent_minus {text : List Char} (h : scanDigits text = (digits, rest))
    (hne : digits ≠ []) : scanExponent ('e' :: '-' :: text) = some (-(value digits : Int), rest) := by
  cases digits with
  | nil => exact absurd rfl hne
  | cons d others => simp [scanExponent, h]

theorem scanExponent_plus {text : List Char} (h : scanDigits text = (digits, rest))
    (hne : digits ≠ []) : scanExponent ('e' :: '+' :: text) = some ((value digits : Int), rest) := by
  cases digits with
  | nil => exact absurd rfl hne
  | cons d others => simp [scanExponent, h]

theorem scanExponent_exponentText (n : Int)
    (hrest : ∀ c, rest.head? = some c → c.isDigit = false) :
    scanExponent (exponentText n ++ rest) = some (n, rest) := by
  have hscan := scanDigits_append (digits_digitsOf n.natAbs) hrest
  have hne : digitsOf n.natAbs ≠ [] := Nat.toDigits_ne_nil
  unfold exponentText
  by_cases hn : n < 0
  · have hsigned : -(n.natAbs : Int) = n := by omega
    rw [if_pos hn, List.cons_append, List.cons_append, scanExponent_minus hscan hne,
      value_digitsOf, hsigned]
  · have hsigned : (n.natAbs : Int) = n := by omega
    rw [if_neg hn, List.cons_append, List.cons_append, scanExponent_plus hscan hne,
      value_digitsOf, hsigned]

theorem scanExponent_of_no_mark (h : ∀ c, rest.head? = some c → c ≠ 'e' ∧ c ≠ 'E') :
    scanExponent rest = some (0, rest) := by
  cases rest with
  | nil => rfl
  | cons c rest =>
    have hmark : ¬ (c = 'e' ∨ c = 'E') := not_or.mpr (h c rfl)
    exact if_neg hmark

/-! ## A whole number -/

/-- The sign of a number that is written. -/
def minus (negative : Bool) : List Char := if negative then ['-'] else []

theorem scanMinus_append (negative : Bool) {text : List Char}
    (h : ∀ c, text.head? = some c → c ≠ '-') :
    scanMinus (minus negative ++ text) = (negative, text) := by
  cases negative with
  | true => rfl
  | false =>
    show scanMinus text = (false, text)
    unfold scanMinus
    split
    · exact absurd rfl (h '-' rfl)
    · rfl

theorem scan_eq (negative : Bool) {text afterWhole afterFraction : List Char} {e : Int}
    (hwhole : scanWhole text = some (whole, afterWhole))
    (hminus : ∀ c, text.head? = some c → c ≠ '-')
    (hfraction : scanFraction afterWhole = some (fraction, afterFraction))
    (hexponent : scanExponent afterFraction = some (e, rest)) :
    scan (minus negative ++ text) =
      some (⟨negative, value (whole ++ fraction), e - fraction.length⟩, rest) := by
  unfold scan
  rw [scanMinus_append negative hminus]
  simp only [hwhole, hfraction, hexponent, Option.bind_eq_bind, Option.bind_some, Option.pure_def]

/-- Every number starts with a minus sign or a digit. -/
theorem head_of_scan {text : List Char} {d : Decimal} (h : scan text = some (d, rest)) :
    ∃ c more, text = c :: more ∧ (c = '-' ∨ c.isDigit = true) := by
  cases text with
  | nil => cases h
  | cons c more =>
    refine ⟨c, more, rfl, ?_⟩
    by_cases hminus : c = '-'
    · exact .inl hminus
    · right
      have hsign : scanMinus (c :: more) = (false, c :: more) :=
        scanMinus_append false fun d hd => Option.some.inj hd ▸ hminus
      unfold scan at h
      rw [hsign] at h
      cases hdigit : c.isDigit with
      | true => rfl
      | false =>
        have hnone : scanWhole (c :: more) = none := by
          rw [scanWhole, scanDigits, List.takeWhile_cons_of_neg (by simp [hdigit])]
        simp only [hnone, Option.bind_eq_bind, Option.bind_none] at h
        cases h

/-! ## Layouts -/

/-- Digits of which the first counts. -/
structure Significant (digits : List Char) : Prop where
  ne_nil : digits ≠ []
  all : Digits digits
  head : digits.head? ≠ some '0'

theorem Digits.head_ne_minus (h : Digits digits) :
    ∀ c, (digits ++ rest).head? = some c → digits ≠ [] → c ≠ '-' := by
  intro c hc hne hminus
  cases digits with
  | nil => exact hne rfl
  | cons d others =>
    cases hc
    have hdigit := h c List.mem_cons_self
    rw [hminus] at hdigit
    exact absurd hdigit (by decide)

theorem Ends.not_digit (h : Ends rest) : ∀ c, rest.head? = some c → c.isDigit = false :=
  fun c hc => (h c hc).1

theorem Ends.scanFraction_eq (h : Ends rest) : scanFraction rest = some ([], rest) :=
  scanFraction_of_no_point fun c hc => (h c hc).2.1

theorem Ends.scanExponent_eq (h : Ends rest) : scanExponent rest = some (0, rest) :=
  scanExponent_of_no_mark fun c hc => (h c hc).2.2

theorem not_digit_point (text : List Char) :
    ∀ c, ('.' :: text).head? = some c → c.isDigit = false := by
  intro c hc
  cases hc
  rfl

theorem not_digit_exponentText (n : Int) (text : List Char) :
    ∀ c, (exponentText n ++ text).head? = some c → c.isDigit = false ∧ c ≠ '.' := by
  intro c hc
  cases hc
  exact ⟨rfl, by decide⟩

variable {negative : Bool} {point : Int}

theorem scan_whole (negative : Bool) (h : Digits whole) (hne : whole ≠ [])
    (hlead : whole.head? = some '0' → whole = ['0']) (hrest : Ends rest) :
    scan (minus negative ++ (whole ++ rest)) = some (⟨negative, value whole, 0⟩, rest) := by
  have hscan := scan_eq negative (scanWhole_append h hne hlead hrest.not_digit)
    (fun c hc => h.head_ne_minus c hc hne) hrest.scanFraction_eq hrest.scanExponent_eq
  rwa [List.append_nil] at hscan

/-- Digits in front of anything that cannot go on with a number are read as a whole number, if
they are read at all. -/
theorem eq_of_scan_whole {negative : Bool} {found : Decimal × List Char} (h : Digits whole)
    (hne : whole ≠ []) (hrest : Ends rest)
    (hscan : scan (minus negative ++ (whole ++ rest)) = some found) :
    found = (⟨negative, value whole, 0⟩, rest) := by
  by_cases hlead : whole.head? = some '0' → whole = ['0']
  · rw [scan_whole negative h hne hlead hrest] at hscan
    exact (Option.some.inj hscan).symm
  · -- A zero in front of another digit is refused.
    obtain ⟨hzero, hmore⟩ := Classical.not_imp.mp hlead
    have hnone : scanWhole (whole ++ rest) = none := by
      rw [scanWhole, scanDigits_append h hrest.not_digit]
      cases whole with
      | nil => exact absurd rfl hne
      | cons d others =>
        cases hzero
        cases others with
        | nil => exact absurd rfl hmore
        | cons e others => rfl
    unfold scan at hscan
    rw [scanMinus_append negative fun c hc => h.head_ne_minus c hc hne] at hscan
    simp only [hnone, Option.bind_eq_bind, Option.bind_none] at hscan
    cases hscan

theorem scan_fraction (negative : Bool) (h : Digits whole) (hne : whole ≠ [])
    (hlead : whole.head? = some '0' → whole = ['0']) (hf : Digits fraction) (hfne : fraction ≠ [])
    (hrest : Ends rest) :
    scan (minus negative ++ (whole ++ '.' :: (fraction ++ rest))) =
      some (⟨negative, value (whole ++ fraction), -fraction.length⟩, rest) := by
  have hscan := scan_eq negative
    (scanWhole_append h hne hlead (not_digit_point (fraction ++ rest)))
    (fun c hc => h.head_ne_minus c hc hne) (scanFraction_point hf hfne hrest.not_digit)
    hrest.scanExponent_eq
  rwa [Int.zero_sub] at hscan

theorem Significant.head_append (h : Significant digits) (back : List Char) :
    (digits ++ back).head? ≠ some '0' := by
  have hne := h.ne_nil
  have hhead := h.head
  cases digits with
  | nil => exact absurd rfl hne
  | cons d others => exact hhead

/-- All digits stand in front of the point, with zeros to fill up. -/
theorem scan_layout_whole (h : Significant digits) (hlow : digits.length ≤ point)
    (hrest : Ends rest) :
    scan (minus negative ++ (digits ++ List.replicate (point.toNat - digits.length) '0' ++ rest)) =
      some (⟨negative, value digits * 10 ^ (point.toNat - digits.length),
        point - digits.length - (point.toNat - digits.length : Nat)⟩, rest) := by
  have hall := h.all.append (digits_zeros (point.toNat - digits.length))
  have hexponent : point - digits.length - (point.toNat - digits.length : Nat) = 0 := by omega
  have hlead := h.head_append (List.replicate (point.toNat - digits.length) '0')
  rw [hexponent, ← value_append_zeros]
  exact scan_whole negative hall (List.append_ne_nil_of_left_ne_nil h.ne_nil _)
    (fun hc => absurd hc hlead) hrest

/-- The point stands between digits. -/
theorem scan_layout_point (h : Significant digits) (hpos : 0 < point)
    (hlow : point < digits.length) (hrest : Ends rest) :
    scan (minus negative ++
        (digits.take point.toNat ++ '.' :: digits.drop point.toNat ++ rest)) =
      some (⟨negative, value digits, point - digits.length⟩, rest) := by
  have htake : digits.take point.toNat ≠ [] := by
    intro hnil
    have hlength := congrArg List.length hnil
    rw [List.length_take, List.length_nil] at hlength
    omega
  have hdrop : digits.drop point.toNat ≠ [] := by
    intro hnil
    have hlength := congrArg List.length hnil
    rw [List.length_drop, List.length_nil] at hlength
    omega
  have hlead : (digits.take point.toNat).head? ≠ some '0' := by
    intro hc
    rw [List.head?_take, if_neg (by omega)] at hc
    exact h.head hc
  have hscan := scan_fraction negative (fun c hc => h.all c (List.mem_of_mem_take hc)) htake
    (fun hc => absurd hc hlead) (fun c hc => h.all c (List.mem_of_mem_drop hc)) hdrop hrest
  have hexponent : -((digits.drop point.toNat).length : Int) = point - digits.length := by
    rw [List.length_drop]
    omega
  rw [List.take_append_drop, hexponent] at hscan
  rw [List.append_assoc, List.cons_append]
  exact hscan

/-- Zeros stand between the point and the digits. -/
theorem scan_layout_small (h : Significant digits) (hlow : point ≤ 0) (hrest : Ends rest) :
    scan (minus negative ++
        ('0' :: '.' :: (List.replicate (-point).toNat '0' ++ digits) ++ rest)) =
      some (⟨negative, value digits, point - digits.length⟩, rest) := by
  have hall := (digits_zeros (-point).toNat).append h.all
  have hzero : Digits ['0'] := digits_zeros 1
  have hscan := scan_fraction negative hzero (List.cons_ne_nil _ _) (fun _ => rfl) hall
    (List.append_ne_nil_of_right_ne_nil _ h.ne_nil) hrest
  have hvalue : value (['0'] ++ (List.replicate (-point).toNat '0' ++ digits)) = value digits := by
    rw [← List.append_assoc]
    exact value_zeros_append ((-point).toNat + 1) digits
  have hexponent : -((List.replicate (-point).toNat '0' ++ digits).length : Int) =
      point - digits.length := by
    rw [List.length_append, List.length_replicate]
    omega
  rw [hvalue, hexponent] at hscan
  exact hscan

/-- One digit stands in front of the point, and an exponent says where the point belongs. -/
theorem scan_layout_exponent {d : Char} {others : List Char} (h : Significant (d :: others))
    (hne : others ≠ []) (hrest : Ends rest) :
    scan (minus negative ++ (d :: '.' :: (others ++ exponentText (point - 1)) ++ rest)) =
      some (⟨negative, value (d :: others), point - (d :: others).length⟩, rest) := by
  have hfirst : Digits [d] := by
    intro c hc
    rw [List.mem_singleton.mp hc]
    exact h.all d List.mem_cons_self
  have hothers : Digits others := fun c hc => h.all c (List.mem_cons_of_mem d hc)
  have hscan := scan_eq negative
    (scanWhole_append hfirst (List.cons_ne_nil _ _) (fun hc => absurd hc h.head)
      (not_digit_point (others ++ (exponentText (point - 1) ++ rest))))
    (fun c hc => hfirst.head_ne_minus c hc (List.cons_ne_nil _ _))
    (scanFraction_point hothers hne fun c hc => (not_digit_exponentText _ rest c hc).1)
    (scanExponent_exponentText (point - 1) hrest.not_digit)
  have hexponent : point - 1 - (others.length : Int) = point - (d :: others).length := by
    rw [List.length_cons]
    omega
  rw [hexponent] at hscan
  rw [List.cons_append, List.cons_append, List.append_assoc]
  exact hscan

/-- As before, with no digit behind the point and so without the point. -/
theorem scan_layout_single {d : Char} (h : Significant [d]) (hrest : Ends rest) :
    scan (minus negative ++ (d :: exponentText (point - 1) ++ rest)) =
      some (⟨negative, value [d], point - [d].length⟩, rest) := by
  have hscan := scan_eq negative
    (scanWhole_append h.all h.ne_nil (fun hc => absurd hc h.head)
      fun c hc => (not_digit_exponentText (point - 1) rest c hc).1)
    (fun c hc => h.all.head_ne_minus c hc h.ne_nil)
    (scanFraction_of_no_point fun c hc => (not_digit_exponentText _ rest c hc).2)
    (scanExponent_exponentText (point - 1) hrest.not_digit)
  have hexponent : point - 1 - (([] : List Char).length : Int) = point - [d].length := by
    rw [List.length_nil, List.length_singleton]
    omega
  rw [List.append_nil, hexponent] at hscan
  exact hscan

/-- Every layout of significant digits is read as these digits with this point. -/
theorem scan_layout (negative : Bool) (h : Significant digits) (point : Int) (hrest : Ends rest) :
    ∃ k : Nat, scan (minus negative ++ (layout digits point ++ rest)) =
      some (⟨negative, value digits * 10 ^ k, point - digits.length - k⟩, rest) := by
  have hzero : ∀ n : Nat, n * 10 ^ 0 = n := Nat.mul_one
  unfold layout
  split
  · rename_i hwhole
    exact ⟨_, scan_layout_whole h hwhole.1 hrest⟩
  · refine ⟨0, ?_⟩
    rw [hzero, Int.natCast_zero, Int.sub_zero]
    rename_i hwhole
    split
    · rename_i hpoint
      exact scan_layout_point h hpoint.1 (by omega) hrest
    · split
      · rename_i hsmall
        exact scan_layout_small h hsmall.2 hrest
      · cases digits with
        | nil => exact absurd rfl h.ne_nil
        | cons d others =>
          cases others with
          | nil => exact scan_layout_single h hrest
          | cons e others => exact scan_layout_exponent h (List.cons_ne_nil e others) hrest

end Decimal
end Worksheet
