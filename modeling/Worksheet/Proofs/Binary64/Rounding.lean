/-
Rounding keeps the order.

What 53 bits hold is not moved by rounding, and nothing is moved across it: a ratio that is at
least such a number rounds to at least that number (`le_roundUnits`).  So a bound that a double
can hold is decided alike before and after rounding, which is what the tests for safe numbers
and for cells inside a sheet rest on.
-/
import Worksheet.Binary64.Basic
import Mathlib.Tactic.Ring
import Mathlib.Tactic.Linarith

namespace Worksheet
namespace Binary64

/-! ## Powers of two

The exponents in use are large enough that no proof should compute a power, so what is
needed of them is stated for variables. -/

theorem powTwo_add (a b : Nat) : powTwo (a + b) = powTwo a * powTwo b := Nat.pow_add 2 a b

theorem powTwo_le_powTwo {a b : Nat} (h : a ≤ b) : powTwo a ≤ powTwo b :=
  Nat.pow_le_pow_right (by omega) h

theorem powTwo_lt_powTwo {a b : Nat} (h : a < b) : powTwo a < powTwo b :=
  Nat.pow_lt_pow_right (by omega) h

theorem powTwo_log2_le {n : Nat} (h : n ≠ 0) : powTwo n.log2 ≤ n := Nat.log2_self_le h

theorem le_log2_of_powTwo_le {k n : Nat} (h : powTwo k ≤ n) : k ≤ n.log2 := by
  have hpos := powTwo_pos k
  exact (Nat.le_log2 (by omega)).mpr h

theorem log2_le_log2 {m n : Nat} (h : m ≤ n) : m.log2 ≤ n.log2 := by
  rcases Nat.eq_zero_or_pos m with rfl | hpos
  · rw [Nat.log2_zero]
    exact Nat.zero_le _
  · exact le_log2_of_powTwo_le (Nat.le_trans (powTwo_log2_le (by omega)) h)

theorem lt_powTwo_of_log2_lt {n k : Nat} (h : n.log2 < k) : n < powTwo k := by
  have hself : n < powTwo (n.log2 + 1) := Nat.lt_log2_self
  exact Nat.lt_of_lt_of_le hself (powTwo_le_powTwo h)

theorem powTwo_dvd_powTwo {a b : Nat} (h : a ≤ b) : powTwo a ∣ powTwo b := Nat.pow_dvd_pow 2 h

theorem log2_lt_of_lt_powTwo {n k : Nat} (hn : n ≠ 0) (h : n < powTwo k) : n.log2 < k :=
  (Nat.log2_lt hn).mpr h

/-! ## The leading 53 bits -/

/-- The leading bit of a number with more than 53 bits, in places of the last bit that is kept. -/
theorem powTwo_mul_lastPlace {n : Nat} (h : 52 ≤ n.log2) :
    powTwo 52 * lastPlace n = powTwo n.log2 := by
  rw [lastPlace, ← powTwo_add, Nat.add_sub_cancel' h]

theorem le_div_lastPlace {n : Nat} (h : 52 ≤ n.log2) : powTwo 52 ≤ n / lastPlace n := by
  have hne : n ≠ 0 := by
    rintro rfl
    rw [Nat.log2_zero] at h
    omega
  rw [Nat.le_div_iff_mul_le (lastPlace_pos n), powTwo_mul_lastPlace h]
  exact powTwo_log2_le hne

/-- Cutting a number to its leading 53 bits does not take it below one that needs no cut. -/
theorem le_div_mul_lastPlace {u n : Nat} (hfit : lastPlace u ∣ u) (h : u ≤ n) :
    u ≤ n / lastPlace n * lastPlace n := by
  by_cases hlog : u.log2 = n.log2
  · have hplace : lastPlace u = lastPlace n := by rw [lastPlace, lastPlace, hlog]
    rw [hplace] at hfit
    calc u = u / lastPlace n * lastPlace n := (Nat.div_mul_cancel hfit).symm
      _ ≤ n / lastPlace n * lastPlace n := Nat.mul_le_mul_right _ (Nat.div_le_div_right h)
  · have hless : u.log2 < n.log2 := Nat.lt_of_le_of_ne (log2_le_log2 h) hlog
    by_cases hbits : 52 ≤ n.log2
    · calc u ≤ powTwo n.log2 := Nat.le_of_lt (lt_powTwo_of_log2_lt hless)
        _ = powTwo 52 * lastPlace n := (powTwo_mul_lastPlace hbits).symm
        _ ≤ n / lastPlace n * lastPlace n := Nat.mul_le_mul_right _ (le_div_lastPlace hbits)
    · have hplace : lastPlace n = 1 := by
        rw [lastPlace, Nat.sub_eq_zero_of_le (by omega)]
        rfl
      rw [hplace, Nat.div_one, Nat.mul_one]
      exact h

/-! ## Bounds on what is rounded -/

theorem div_le_nearest (num den : Nat) : num / den ≤ nearest num den := by
  unfold nearest
  split <;> omega

/-- Rounding to a whole number moves by a half at most. -/
theorem two_mul_nearest_mul_le (num den : Nat) :
    2 * (nearest num den * den) ≤ 2 * num + den := by
  have hdivide : den * (num / den) + num % den = num := Nat.div_add_mod num den
  unfold nearest
  split
  · have hup : (num / den + 1) * den = den * (num / den) + den := by ring
    omega
  · have hdown : num / den * den = den * (num / den) := Nat.mul_comm _ _
    omega

theorem le_roundUnits {u num den : Nat} (hfit : lastPlace u ∣ u) (hd : 0 < den)
    (h : u * den ≤ num) : u ≤ roundUnits num den := by
  have hquot : u ≤ num / den := (Nat.le_div_iff_mul_le hd).mpr h
  calc u ≤ num / den / lastPlace (num / den) * lastPlace (num / den) :=
        le_div_mul_lastPlace hfit hquot
    _ = num / (den * lastPlace (num / den)) * lastPlace (num / den) := by
        rw [Nat.div_div_eq_div_mul]
    _ ≤ roundUnits num den := Nat.mul_le_mul_right _ (div_le_nearest _ _)

/-- Rounding to 53 bits moves by half a place of the last bit at most. -/
theorem two_mul_roundUnits_mul_le (num den : Nat) :
    2 * (roundUnits num den * den) ≤ 2 * num + den * lastPlace (num / den) := by
  have h := two_mul_nearest_mul_le num (den * lastPlace (num / den))
  have hswap : roundUnits num den * den =
      nearest num (den * lastPlace (num / den)) * (den * lastPlace (num / den)) := by
    unfold roundUnits
    ring
  rw [hswap]
  exact h

end Binary64
end Worksheet
