/-
The text of a double reads back as the double.

The search for the shortest decimal ends with one that reads back: each grid point that it accepts
was read, and on the finest grid every double is exact (`readsBack_shortest`).  Its digits are laid
out without their last zeros, and whatever layout is chosen, what is read is rounded to the double
again (`scan_textChars`).  Only the sign of zero is not written.
-/
import Worksheet.Proofs.Decimal.Scan
import Worksheet.Proofs.Binary64.Whole

namespace Worksheet
namespace Binary64

open Decimal

/-! ## The shortest decimal reads back -/

theorem readsBack_iff {units : Nat} (fits : Fits units) {d : Decimal} :
    readsBack units d = true ↔ ∃ negative, d.round = .finite negative units fits := by
  unfold readsBack
  constructor
  · intro h
    split at h
    · rename_i negative m hm heq
      have hunits : m = units := eq_of_beq h
      subst hunits
      exact ⟨negative, heq⟩
    · cases h
  · intro h
    obtain ⟨negative, hround⟩ := h
    rw [hround]
    exact beq_self_eq_true units

/-- Whatever its sign, a decimal that reads back is rounded to the double with that sign. -/
theorem round_of_readsBack {units n : Nat} {e : Int} (fits : Fits units)
    (h : readsBack units ⟨false, n, e⟩ = true) (negative : Bool) :
    Decimal.round ⟨negative, n, e⟩ = .finite negative units fits := by
  obtain ⟨sign, hround⟩ := (readsBack_iff fits).mp h
  rw [← round_withSign negative false, hround]
  rfl

theorem readsBack_of_gridPoint? {units n : Nat} {e : Int} (h : gridPoint? units e = some n) :
    readsBack units ⟨false, n, e⟩ = true := by
  unfold gridPoint? at h
  generalize onGrid units e = ratio at h
  obtain ⟨num, den⟩ := ratio
  simp only at h
  split at h
  · cases h
  · rename_i hbelow _
    cases h
    exact hbelow
  · rename_i _ habove
    cases h
    exact habove
  · rename_i hbelow habove
    cases h
    unfold nearest
    split
    · exact habove
    · exact hbelow

/-- Where the search ends has to read back; wherever it stops before, the decimal was read. -/
theorem readsBack_search {units steps num den : Nat} {e : Int}
    (hgrid : onGrid units (e - steps) = (num, den))
    (hlast : readsBack units ⟨false, num / den, e - steps⟩ = true) :
    (search units steps e).negative = false ∧ readsBack units (search units steps e) = true := by
  induction steps generalizing e with
  | zero =>
    rw [Int.natCast_zero, Int.sub_zero] at hgrid hlast
    rw [search, hgrid]
    exact ⟨rfl, hlast⟩
  | succ steps ih =>
    rw [search]
    cases hpoint : gridPoint? units e with
    | some n => exact ⟨rfl, readsBack_of_gridPoint? hpoint⟩
    | none =>
      have hend : e - 1 - (steps : Int) = e - (steps + 1 : Nat) := by omega
      apply ih
      · rw [hend]
        exact hgrid
      · rw [hend]
        exact hlast

/-! ### The finest grid

Powers are compared for any exponents, so that none has to be computed. -/

theorem powTwo_mul_five_pow (n : Nat) : powTwo n * 5 ^ n = 10 ^ n := (Nat.mul_pow 2 5 n).symm

theorem powTwo_le_ten_pow {a b : Nat} (h : a ≤ 3 * b) : powTwo a ≤ 10 ^ b := by
  calc powTwo a ≤ powTwo (3 * b) := powTwo_le_powTwo h
    _ = 8 ^ b := Nat.pow_mul 2 3 b
    _ ≤ 10 ^ b := Nat.pow_le_pow_left (by decide) b

theorem powTwo_le_five_pow {a b : Nat} (h : a ≤ 2 * b) : powTwo a ≤ 5 ^ b := by
  calc powTwo a ≤ powTwo (2 * b) := powTwo_le_powTwo h
    _ = 4 ^ b := Nat.pow_mul 2 2 b
    _ ≤ 5 ^ b := Nat.pow_le_pow_left (by decide) b

theorem mul_five_pow_lt {units a b f : Nat} (h : units < powTwo (a + f)) (hab : a ≤ 3 * b) :
    units * 5 ^ f < 10 ^ (b + f) := by
  calc units * 5 ^ f < powTwo (a + f) * 5 ^ f :=
        Nat.mul_lt_mul_of_pos_right h (Nat.pow_pos (by decide))
    _ = powTwo a * 10 ^ f := by rw [powTwo_add, Nat.mul_assoc, powTwo_mul_five_pow]
    _ ≤ 10 ^ b * 10 ^ f := Nat.mul_le_mul_right _ (powTwo_le_ten_pow hab)
    _ = 10 ^ (b + f) := (Nat.pow_add 10 b f).symm

theorem le_mul_five_pow {units a b : Nat} (h : units ≠ 0) (hab : a ≤ 2 * b) :
    10 ^ a ≤ units * 5 ^ (b + a) := by
  calc 10 ^ a = powTwo a * 5 ^ a := (powTwo_mul_five_pow a).symm
    _ ≤ 5 ^ b * 5 ^ a := Nat.mul_le_mul_right _ (powTwo_le_five_pow hab)
    _ = 5 ^ (b + a) := (Nat.pow_add 5 b a).symm
    _ ≤ units * 5 ^ (b + a) := Nat.le_mul_of_pos_left _ (Nat.pos_of_ne_zero h)

/-- There a double is a whole number of places. -/
theorem onGrid_finest (units : Nat) :
    onGrid units (-fractionBits) = (units * 5 ^ fractionBits * one, one) := by
  have hneg : ¬ (0 : Int) ≤ -fractionBits := by decide
  have hexponent : (-(-(fractionBits : Int))).toNat = fractionBits := by
    rw [Int.neg_neg, Int.toNat_natCast]
  rw [onGrid, if_neg hneg, hexponent, Nat.pow_eq, ← powTwo_mul_five_pow, one, Nat.mul_assoc,
    Nat.mul_comm (5 ^ fractionBits)]

theorem ofRatio_finest {units : Nat} (fits : Fits units) (f : Nat) (h : one = powTwo f) :
    ofRatio false (units * 5 ^ f * 10 ^ (-(f : Int)).toNat * one) (10 ^ (- -(f : Int)).toNat) =
      .finite false units fits := by
  have hwhole : (-(f : Int)).toNat = 0 := by omega
  have hexponent : (- -(f : Int)).toNat = f := by omega
  have hnum : units * 5 ^ f * one = units * 10 ^ f := by
    rw [h, ← powTwo_mul_five_pow, Nat.mul_assoc, Nat.mul_comm (5 ^ f)]
  rw [hwhole, hexponent, Nat.pow_zero, Nat.mul_one, hnum]
  exact ofRatio_of_fits false fits (Nat.pow_pos (by decide))

theorem round_finest {units : Nat} (fits : Fits units) (hne : units ≠ 0) :
    Decimal.round ⟨false, units * 5 ^ fractionBits, -fractionBits⟩ = .finite false units fits := by
  have hplaces : fractionBits = 401 + 673 := rfl
  have hdigits : units * 5 ^ fractionBits ≠ 0 :=
    Nat.mul_ne_zero hne (Nat.ne_of_gt (Nat.pow_pos (by decide)))
  have hmost : (digitsOf (units * 5 ^ fractionBits)).length ≤ 400 + fractionBits := by
    rw [length_digitsOf_le_iff (by omega)]
    exact mul_five_pow_lt fits.1 (by decide)
  have hleast : ¬ (digitsOf (units * 5 ^ fractionBits)).length ≤ 673 := by
    rw [length_digitsOf_le_iff (by omega), Nat.not_lt, hplaces]
    exact le_mul_five_pow hne (by decide)
  have htop : top ⟨false, units * 5 ^ fractionBits, -fractionBits⟩ =
      (digitsOf (units * 5 ^ fractionBits)).length + -(fractionBits : Int) := rfl
  generalize hlength : (digitsOf (units * 5 ^ fractionBits)).length = length at hmost hleast htop
  rw [round_eq, if_neg hdigits, htop, reach, if_neg (by omega), if_neg (by omega)]
  exact ofRatio_finest fits fractionBits rfl

theorem readsBack_shortest {units : Nat} (fits : Fits units) (hne : units ≠ 0) :
    (shortest units).negative = false ∧ readsBack units (shortest units) = true := by
  have htop : 0 ≤ topExponent units + fractionBits := by
    have hplaces : fractionBits = 1074 := rfl
    unfold topExponent
    omega
  have hlast : topExponent units - ((topExponent units + fractionBits).toNat : Int) =
      -fractionBits := by omega
  have hgrid := onGrid_finest units
  have hround := (readsBack_iff fits).mpr ⟨false, round_finest fits hne⟩
  rw [← Nat.mul_div_cancel (units * 5 ^ fractionBits) one_pos] at hround
  rw [← hlast] at hgrid hround
  exact readsBack_search hgrid hround

/-! ## Layout -/

/-- What is stripped from digits is zeros. -/
theorem exists_eq_stripZeros (digits : List Char) :
    ∃ k, digits = stripZeros digits ++ List.replicate k '0' := by
  have hzeros : digits.reverse.takeWhile (· = '0') =
      List.replicate (digits.reverse.takeWhile (· = '0')).length '0' :=
    List.eq_replicate_of_mem fun c hc =>
      of_decide_eq_true (List.all_eq_true.mp List.all_takeWhile c hc)
  refine ⟨(digits.reverse.takeWhile (· = '0')).length, ?_⟩
  calc digits = (digits.reverse.takeWhile (· = '0') ++
        digits.reverse.dropWhile (· = '0')).reverse := by
        rw [List.takeWhile_append_dropWhile, List.reverse_reverse]
    _ = stripZeros digits ++ (digits.reverse.takeWhile (· = '0')).reverse := List.reverse_append
    _ = stripZeros digits ++ List.replicate (digits.reverse.takeWhile (· = '0')).length '0' := by
        rw [hzeros, List.reverse_replicate, List.length_replicate]

theorem head?_digitsOf {n : Nat} (hn : n ≠ 0) : (digitsOf n).head? ≠ some '0' := by
  induction n using Nat.strongRecOn with
  | ind n ih =>
    rw [digitsOf, Nat.toDigits_eq_if (by decide)]
    by_cases hsmall : n < 10
    · rw [if_pos hsmall, List.head?_cons, ne_eq, Option.some.injEq, Nat.digitChar_eq_zero]
      exact hn
    · have hhead := ih (n / 10) (by omega) (by omega)
      have hne : Nat.toDigits 10 (n / 10) ≠ [] := Nat.toDigits_ne_nil
      rw [if_neg hsmall]
      rw [digitsOf] at hhead
      generalize Nat.toDigits 10 (n / 10) = front at hhead hne
      cases front with
      | nil => exact absurd rfl hne
      | cons d others => exact hhead

/-- The digits that are laid out, and how many zeros are not. -/
theorem exists_significant {n : Nat} (hn : n ≠ 0) :
    ∃ k, Significant (stripZeros (digitsOf n)) ∧ n = value (stripZeros (digitsOf n)) * 10 ^ k ∧
      (digitsOf n).length = (stripZeros (digitsOf n)).length + k := by
  obtain ⟨k, hk⟩ := exists_eq_stripZeros (digitsOf n)
  have hall := digits_digitsOf n
  have hhead := head?_digitsOf hn
  have hvalue := value_digitsOf n
  generalize stripZeros (digitsOf n) = digits at hk
  rw [hk] at hall hhead hvalue ⊢
  rw [value_append_zeros] at hvalue
  refine ⟨k, ⟨?_, fun c hc => hall c (List.mem_append_left _ hc), ?_⟩, hvalue.symm, ?_⟩
  · intro hnil
    rw [hnil] at hvalue
    exact hn (hvalue.symm.trans (Nat.zero_mul _))
  · intro hzero
    rw [List.head?_append, hzero] at hhead
    exact hhead rfl
  · rw [List.length_append, List.length_replicate]

theorem scan_decimalText (negative : Bool) {d : Decimal} (hne : d.digits ≠ 0) {rest : List Char}
    (hrest : Ends rest) :
    ∃ found, scan (minus negative ++ (decimalText d ++ rest)) = some (found, rest) ∧
      found.round = Decimal.round ⟨negative, d.digits, d.exponent⟩ := by
  obtain ⟨k, hsignificant, hvalue, hlength⟩ := exists_significant hne
  obtain ⟨j, hscan⟩ := scan_layout negative hsignificant
    ((digitsOf d.digits).length + d.exponent) hrest
  refine ⟨_, hscan, ?_⟩
  have hpoint : (digitsOf d.digits).length + d.exponent -
      ((stripZeros (digitsOf d.digits)).length : Int) = d.exponent + k := by
    omega
  have hback : d.exponent = d.exponent + k - (k : Int) := by omega
  rw [round_shift, hpoint]
  generalize value (stripZeros (digitsOf d.digits)) = n at hvalue
  rw [hvalue]
  calc Decimal.round ⟨negative, n, d.exponent + k⟩
      = Decimal.round ⟨negative, n * 10 ^ k, d.exponent + k - (k : Int)⟩ :=
        (round_shift negative n k (d.exponent + k)).symm
    _ = Decimal.round ⟨negative, n * 10 ^ k, d.exponent⟩ := by rw [← hback]

/-! ## The text of a double -/

/-- A whole number that is written directly is read as itself. -/
theorem round_natAbs {n : Int} (hn : n.natAbs ≤ bitBound) :
    Decimal.round ⟨decide (n < 0), n.natAbs, 0⟩ = ofInt n := by
  by_cases hzero : n = 0
  · subst hzero
    exact zero_false_eq_ofInt
  · have hdigits : n.natAbs ≠ 0 := by omega
    have hlength : (digitsOf n.natAbs).length ≤ 18 := by
      rw [length_digitsOf_le_iff (by decide)]
      calc n.natAbs ≤ bitBound := hn
        _ < powTwo 54 := powTwo_lt_powTwo (by decide)
        _ ≤ 10 ^ 18 := powTwo_le_ten_pow (by decide)
    have htop : top ⟨decide (n < 0), n.natAbs, 0⟩ = (digitsOf n.natAbs).length := Int.add_zero _
    have hexponent : (-(0 : Int)).toNat = 0 := rfl
    rw [round_eq, if_neg hdigits, htop, reach, if_neg (by omega), if_neg (by omega), hexponent,
      Int.toNat_zero, Nat.pow_zero, Nat.mul_one]
    rfl

theorem scan_intText {n : Int} (hn : n.natAbs ≤ bitBound) {rest : List Char}
    (hrest : Ends rest) :
    ∃ d, scan (intText n ++ rest) = some (d, rest) ∧ d.round = ofInt n := by
  have htext : intText n = minus (decide (n < 0)) ++ digitsOf n.natAbs := by
    unfold intText
    by_cases hneg : n < 0
    · rw [if_pos hneg, decide_eq_true hneg]
      rfl
    · rw [if_neg hneg, decide_eq_false hneg]
      rfl
  have hlead : (digitsOf n.natAbs).head? = some '0' → digitsOf n.natAbs = ['0'] := by
    by_cases hzero : n.natAbs = 0
    · rw [hzero]
      exact fun _ => rfl
    · exact fun hc => absurd hc (head?_digitsOf hzero)
  refine ⟨_, ?_, round_natAbs hn⟩
  rw [htext, List.append_assoc, scan_whole _ (digits_digitsOf _) Nat.toDigits_ne_nil hlead hrest,
    value_digitsOf]

theorem safeInt?_zero (negative : Bool) (fits : Fits 0) :
    (Binary64.finite negative 0 fits).safeInt? = some 0 := by
  have hsigned : signed negative 0 = 0 := by cases negative <;> rfl
  unfold safeInt? toInt?
  simp only [Nat.zero_mod, Nat.zero_div, if_pos, hsigned, Int.natAbs_zero]
  exact if_pos (Nat.zero_le maxSafe)

theorem textChars_of_safe {x : Binary64} {n : Int} (h : x.safeInt? = some n) :
    x.textChars = intText n := by
  unfold textChars
  rw [h]

theorem textChars_of_not_safe {negative : Bool} {units : Nat} {fits : Fits units}
    (h : (Binary64.finite negative units fits).safeInt? = none) :
    (Binary64.finite negative units fits).textChars =
      minus negative ++ decimalText (shortest units) := by
  unfold textChars
  rw [h]
  cases negative <;> rfl

theorem scan_shortest (negative : Bool) {units : Nat} (fits : Fits units) (hne : units ≠ 0)
    {rest : List Char} (hrest : Ends rest) :
    ∃ d, scan (minus negative ++ (decimalText (shortest units) ++ rest)) = some (d, rest) ∧
      d.round = .finite negative units fits := by
  obtain ⟨hsign, hback⟩ := readsBack_shortest fits hne
  generalize shortest units = found at hsign hback
  obtain ⟨sign, n, e⟩ := found
  subst hsign
  have hround := round_of_readsBack fits hback negative
  have hdigits : n ≠ 0 := by
    intro hzero
    rw [round_eq, if_pos hzero] at hround
    injection hround with _ hunits
    exact hne hunits.symm
  obtain ⟨d, hscan, hd⟩ := scan_decimalText negative (d := ⟨false, n, e⟩) hdigits hrest
  exact ⟨d, hscan, hd.trans hround⟩

/-- What is written of a finite double is read as that double, but for the negative zero. -/
theorem scan_textChars {negative : Bool} {units : Nat} {fits : Fits units}
    (hx : Binary64.finite negative units fits ≠ zero true) {rest : List Char}
    (hrest : Ends rest) :
    ∃ d, scan ((Binary64.finite negative units fits).textChars ++ rest) = some (d, rest) ∧
      d.round = .finite negative units fits := by
  cases hsafe : (Binary64.finite negative units fits).safeInt? with
  | some n =>
    have hrepresents := represents_of_safeInt? hsafe hx
    rw [textChars_of_safe hsafe, hrepresents.eq_ofInt]
    exact scan_intText hrepresents.le_bitBound hrest
  | none =>
    have hne : units ≠ 0 := by
      intro hzero
      subst hzero
      rw [safeInt?_zero] at hsafe
      cases hsafe
    rw [textChars_of_not_safe hsafe, List.append_assoc]
    exact scan_shortest negative fits hne hrest

/-- The text of a finite double starts with a minus sign or a digit. -/
theorem head_textChars (negative : Bool) (units : Nat) (fits : Fits units) :
    ∃ c more, (Binary64.finite negative units fits).textChars = c :: more ∧
      (c = '-' ∨ c.isDigit = true) := by
  by_cases hzero : Binary64.finite negative units fits = zero true
  · rw [hzero, zero, textChars_of_safe (safeInt?_zero true fits_zero)]
    exact ⟨'0', [], rfl, .inr rfl⟩
  · obtain ⟨d, hscan, -⟩ := scan_textChars hzero ends_nil
    rw [List.append_nil] at hscan
    exact head_of_scan hscan

/-- A decimal without an exponent is as safe as its digits. -/
theorem isSafe_round (negative : Bool) {n : Nat} (hn : n ≤ maxSafe) :
    (Decimal.round ⟨negative, n, 0⟩).isSafe = true := by
  by_cases hzero : n = 0
  · rw [hzero, round_eq, if_pos rfl, zero, isSafe, safeInt?_zero]
    rfl
  · have habs : (signed negative n).natAbs = n := by
      cases negative <;> simp [signed]
    have hsign : decide (signed negative n < 0) = negative := by
      cases negative
      · simp [signed]
      · simp [signed]
        omega
    have hround := round_natAbs (n := signed negative n) (by
      rw [habs]
      exact le_bitBound_of_le_maxSafe hn)
    rw [habs, hsign] at hround
    rw [hround, isSafe_ofInt_iff, habs]
    exact hn

end Binary64
end Worksheet
