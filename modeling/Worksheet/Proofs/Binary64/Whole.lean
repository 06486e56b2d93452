/-
Whole numbers of at most 53 bits are exact.

A sum of two doubles rounds its exact total, and `ofInt` of the exact total rounds the same
ratio, so for whole operands `x + y` and `ofInt` of the sum agree without a bound on the
result (`add_ofInt`).  What has to be bounded is the answer: `isSafe_ofInt_iff` says that
the test for a safe number, made after rounding, decides the bound on the exact number.  Its
hard half is that a number of 54 bits or more does not round back below the bound.
-/
import Worksheet.Proofs.Binary64.Rounding

namespace Worksheet
namespace Binary64

/-! ## The double of a whole number -/

/-- A number of at most 53 bits, moved left, is a double as long as it does not overflow. -/
theorem fits_mul_powTwo {m k : Nat} (hm : m ≤ bitBound) (hk : 53 + k < 1024 + fractionBits) :
    Fits (m * powTwo k) := by
  refine ⟨?_, lastPlace_dvd_of_shift hm⟩
  calc m * powTwo k ≤ bitBound * powTwo k := Nat.mul_le_mul_right _ hm
    _ = powTwo (53 + k) := by rw [powTwo_add, bitBound]
    _ < overflow := powTwo_lt_powTwo hk

theorem fits_mul_one {k : Nat} (hk : k ≤ bitBound) : Fits (k * one) :=
  fits_mul_powTwo hk (by decide)

theorem ofInt_eq_finite {n : Int} (hn : n.natAbs ≤ bitBound) :
    ofInt n = .finite (decide (n < 0)) (n.natAbs * one) (fits_mul_one hn) := by
  have h := ofRatio_of_fits (decide (n < 0)) (fits_mul_one hn) Nat.one_pos
  rwa [Nat.mul_one] at h

theorem toInt?_finite (negative : Bool) {k : Nat} (h : Fits (k * one)) :
    (Binary64.finite negative (k * one) h).toInt? = some (signed negative k) := by
  simp only [toInt?]
  rw [if_pos (Nat.mul_mod_left k one), Nat.mul_div_cancel k one_pos]

theorem signed_natAbs (n : Int) (k : Nat) :
    signed (decide (n < 0)) (n.natAbs * k) = n * k := by
  unfold signed
  by_cases hn : n < 0
  · rw [if_pos (decide_eq_true hn), Int.natCast_mul, Int.ofNat_natAbs_of_nonpos (by omega)]
    ring
  · rw [if_neg (by simpa using hn), Int.natCast_mul, Int.natAbs_of_nonneg (by omega)]

theorem toInt?_ofInt {n : Int} (hn : n.natAbs ≤ bitBound) : (ofInt n).toInt? = some n := by
  rw [ofInt_eq_finite hn, toInt?_finite]
  have h := signed_natAbs n 1
  rw [Nat.mul_one] at h
  rw [h, Int.natCast_one, Int.mul_one]

theorem le_bitBound_of_le_maxSafe {k : Nat} (hk : k ≤ maxSafe) : k ≤ bitBound :=
  Nat.le_trans hk (Nat.sub_le bitBound 1)

/-- A whole number is never the negative zero. -/
theorem ofInt_ne_negative_zero {n : Int} (hn : n.natAbs ≤ bitBound) : ofInt n ≠ zero true := by
  rw [ofInt_eq_finite hn]
  intro h
  injection h with hsign hunits
  have hneg : n < 0 := of_decide_eq_true hsign
  have hpos : 0 < n.natAbs * one := Nat.mul_pos (by omega) one_pos
  omega

/-! ## Safe numbers -/

theorem isSafe_iff_of_toInt? {x : Binary64} {n : Int} (h : x.toInt? = some n) :
    x.isSafe = true ↔ n.natAbs ≤ maxSafe := by
  unfold isSafe safeInt?
  rw [h]
  by_cases hn : n.natAbs ≤ maxSafe <;> simp [hn]

theorem safeInt?_eq_some_iff {x : Binary64} {n : Int} :
    x.safeInt? = some n ↔ x.toInt? = some n ∧ n.natAbs ≤ maxSafe := by
  unfold safeInt?
  cases x.toInt? with
  | none => simp
  | some k =>
    by_cases hk : k.natAbs ≤ maxSafe
    · simp only [hk, if_true, Option.some.injEq]
      exact ⟨fun heq => ⟨heq, heq ▸ hk⟩, fun h => h.1⟩
    · simp only [hk, if_false, Option.some.injEq]
      exact ⟨fun hnone => (by cases hnone), fun h => absurd (h.1 ▸ h.2) hk⟩

theorem isSafe_of_toInt?_eq_none {x : Binary64} (h : x.toInt? = none) : x.isSafe = false := by
  unfold isSafe safeInt?
  rw [h]
  rfl

theorem natAbs_signed (negative : Bool) (k : Nat) : (signed negative k).natAbs = k := by
  cases negative <;> simp [signed]

theorem isSafe_finite_false {negative : Bool} {units : Nat} {h : Fits units}
    (hlarge : bitBound * one ≤ units) : (Binary64.finite negative units h).isSafe = false := by
  have hquot : bitBound ≤ units / one := (Nat.le_div_iff_mul_le one_pos).mpr hlarge
  have hbound : ¬ (signed negative (units / one)).natAbs ≤ maxSafe := by
    rw [natAbs_signed]
    have hpos : 0 < bitBound := powTwo_pos 53
    unfold maxSafe
    omega
  by_cases hwhole : units % one = 0
  · have hint : (Binary64.finite negative units h).toInt? = some (signed negative (units / one)) := by
      simp only [toInt?, if_pos hwhole]
    rw [Bool.eq_false_iff, ne_eq, isSafe_iff_of_toInt? hint]
    exact hbound
  · exact isSafe_of_toInt?_eq_none (by simp only [toInt?, if_neg hwhole])

theorem isSafe_ofInt_iff (n : Int) : (ofInt n).isSafe = true ↔ n.natAbs ≤ maxSafe := by
  refine ⟨fun hsafe => ?_, fun hn =>
    (isSafe_iff_of_toInt? (toInt?_ofInt (le_bitBound_of_le_maxSafe hn))).mpr hn⟩
  by_contra hlarge
  have hbits : bitBound ≤ n.natAbs := by
    unfold maxSafe at hlarge
    omega
  have hround : bitBound * one ≤ roundUnits (n.natAbs * one) 1 := by
    refine le_roundUnits (fits_mul_one (Nat.le_refl bitBound)).2 Nat.one_pos ?_
    rw [Nat.mul_one]
    exact Nat.mul_le_mul_right one hbits
  have hfalse : (ofInt n).isSafe = false := by
    unfold ofInt ofRatio
    split
    · exact isSafe_finite_false hround
    · rfl
  rw [hfalse] at hsafe
  cases hsafe

/-! ## Arithmetic -/

theorem zero_false_eq_ofInt : zero false = ofInt 0 := by
  have h := ofRatio_of_fits false fits_zero Nat.one_pos
  rw [Nat.zero_mul] at h
  rw [zero, ← h]
  unfold ofInt
  rw [Int.natAbs_zero, Nat.zero_mul]
  rfl

theorem add_finite_whole {s t : Bool} {a b : Nat} {ha : Fits a} {hb : Fits b} {k : Int}
    (htotal : signed s a + signed t b = k * one) (hzero : k = 0 → (s && t) = false) :
    add (.finite s a ha) (.finite t b hb) = ofInt k := by
  have hone : 0 < (one : Int) := Int.natCast_pos.mpr one_pos
  simp only [add]
  rw [htotal]
  by_cases hk : k = 0
  · rw [if_pos (by rw [hk, Int.zero_mul]), hzero hk, hk]
    exact zero_false_eq_ofInt
  · have hne : k * one ≠ 0 := Int.mul_ne_zero hk (by omega)
    rw [if_neg hne]
    unfold ofInt
    have hsign : decide (k * (one : Int) < 0) = decide (k < 0) := by
      rw [decide_eq_decide]
      exact ⟨fun h => neg_of_mul_neg_left h (by omega), fun h => Int.mul_neg_of_neg_of_pos h hone⟩
    rw [hsign, Int.natAbs_mul, Int.natAbs_natCast]

theorem add_ofInt {m n : Int} (hm : m.natAbs ≤ bitBound) (hn : n.natAbs ≤ bitBound) :
    ofInt m + ofInt n = ofInt (m + n) := by
  show add (ofInt m) (ofInt n) = ofInt (m + n)
  rw [ofInt_eq_finite hm, ofInt_eq_finite hn]
  refine add_finite_whole ?_ ?_
  · rw [signed_natAbs, signed_natAbs]
    ring
  · intro hsum
    by_contra hboth
    simp at hboth
    omega

theorem sub_eq_add_neg (x y : Binary64) : x - y = add x y.neg := rfl

theorem neg_finite (s : Bool) (units : Nat) (h : Fits units) :
    (Binary64.finite s units h).neg = .finite (!s) units h := rfl

theorem signed_not (negative : Bool) (k : Nat) : signed (!negative) k = -signed negative k := by
  cases negative <;> simp [signed]

/-- The exact zero of a difference carries no sign, since the operands are then equal. -/
theorem sub_ofInt {m n : Int} (hm : m.natAbs ≤ bitBound) (hn : n.natAbs ≤ bitBound) :
    ofInt m - ofInt n = ofInt (m - n) := by
  rw [sub_eq_add_neg, ofInt_eq_finite hm, ofInt_eq_finite hn, neg_finite]
  refine add_finite_whole ?_ ?_
  · rw [signed_not, signed_natAbs, signed_natAbs]
    ring
  · intro hdiff
    have heq : m = n := by omega
    rw [heq, Bool.and_not_self]

theorem zero_eq_ofInt : (0 : Binary64) = ofInt 0 := by
  show ofNat 0 = ofInt 0
  unfold ofNat ofInt
  rw [Int.natAbs_zero]
  rfl

theorem zero_sub_ofInt {n : Int} (hn : n.natAbs ≤ bitBound) : 0 - ofInt n = ofInt (-n) := by
  have hzero : (0 : Int).natAbs ≤ bitBound := Nat.zero_le bitBound
  rw [zero_eq_ofInt, sub_ofInt hzero hn, Int.zero_sub]

/-! ## Exact values -/

/-- The double is the whole number, exactly, and is safe. -/
structure Represents (x : Binary64) (n : Int) : Prop where
  eq_ofInt : x = ofInt n
  bound : n.natAbs ≤ maxSafe

namespace Represents

variable {x y : Binary64} {m n : Int}

theorem le_bitBound (h : Represents x n) : n.natAbs ≤ bitBound := le_bitBound_of_le_maxSafe h.bound

theorem toInt?_eq (h : Represents x n) : x.toInt? = some n := by
  rw [h.eq_ofInt, toInt?_ofInt h.le_bitBound]

theorem of_toInt? (h : Represents x m) (hx : x.toInt? = some n) : Represents x n := by
  rw [h.toInt?_eq] at hx
  exact Option.some.inj hx ▸ h

theorem safeInt?_eq (h : Represents x n) : x.safeInt? = some n :=
  safeInt?_eq_some_iff.mpr ⟨h.toInt?_eq, h.bound⟩

theorem isSafe_eq (h : Represents x n) : x.isSafe = true := by
  rw [h.eq_ofInt, isSafe_ofInt_iff]
  exact h.bound

theorem ne_negative_zero (h : Represents x n) : x ≠ zero true := by
  rw [h.eq_ofInt]
  exact ofInt_ne_negative_zero h.le_bitBound

theorem zero : Represents 0 0 := ⟨zero_eq_ofInt, Nat.zero_le maxSafe⟩

theorem negate (h : Represents x n) : Represents (0 - x) (-n) := by
  constructor
  · rw [h.eq_ofInt, zero_sub_ofInt h.le_bitBound]
  · rw [Int.natAbs_neg]
    exact h.bound

theorem add_eq (hx : Represents x m) (hy : Represents y n) : x + y = ofInt (m + n) := by
  rw [hx.eq_ofInt, hy.eq_ofInt, add_ofInt hx.le_bitBound hy.le_bitBound]

theorem sub_eq (hx : Represents x m) (hy : Represents y n) : x - y = ofInt (m - n) := by
  rw [hx.eq_ofInt, hy.eq_ofInt, sub_ofInt hx.le_bitBound hy.le_bitBound]

end Represents

/-- A number that is safe represents its whole number, but for the negative zero. -/
theorem represents_of_safeInt? {x : Binary64} {n : Int} (h : x.safeInt? = some n)
    (hx : x ≠ Binary64.zero true) : Represents x n := by
  cases x with
  | nan => cases h
  | infinite negative => cases h
  | finite negative units fits =>
    unfold safeInt? toInt? at h
    by_cases hwhole : units % one = 0
    · have hunits : units / one * one = units := Nat.div_mul_cancel (Nat.dvd_of_mod_eq_zero hwhole)
      simp only [if_pos hwhole] at h
      generalize units / one = k at h hunits
      subst hunits
      by_cases hsafe : (signed negative k).natAbs ≤ maxSafe
      · rw [if_pos hsafe] at h
        cases h
        have hsign : decide (signed negative k < 0) = negative := by
          cases negative with
          | false => exact decide_eq_false (by simp [signed])
          | true =>
            have hk : k ≠ 0 := by
              intro hzero
              subst hzero
              exact hx (by simp only [Nat.zero_mul]; rfl)
            exact decide_eq_true (show -(k : Int) < 0 by omega)
        refine ⟨?_, hsafe⟩
        rw [ofInt_eq_finite (le_bitBound_of_le_maxSafe hsafe)]
        simp only [hsign, natAbs_signed]
      · rw [if_neg hsafe] at h
        cases h
    · simp only [if_neg hwhole] at h
      cases h

theorem represents_ofInt {n : Int} (h : (ofInt n).isSafe = true) : Represents (ofInt n) n :=
  ⟨rfl, (isSafe_ofInt_iff n).mp h⟩

end Binary64
end Worksheet
