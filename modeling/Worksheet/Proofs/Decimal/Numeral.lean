/-
Decimal numerals.

Zeros in front of the digits of a number are the only freedom in writing it: what is left of its
digits without them is the numeral that is written for it (`digitsOf_value`).  The induction is on
the digits that follow one that counts, so the digits in front of them are a number above zero.
-/
import Worksheet.Proofs.Decimal.Scan

namespace Worksheet
namespace Decimal

/-- The digits without the zeros in front of them. -/
def dropZeros (digits : List Char) : List Char := digits.dropWhile (· = '0')

theorem value_zero_cons (digits : List Char) : value ('0' :: digits) = value digits :=
  value_zeros_append 1 digits

theorem digits_zero_cons {digits : List Char} (h : Digits digits) : Digits ('0' :: digits) :=
  Digits.append (digits_zeros 1) h

theorem digitChar_of_isDigit {c : Char} (h : c.isDigit = true) :
    c.toNat - 48 < 10 ∧ Nat.digitChar (c.toNat - 48) = c := by
  have hrange : 48 ≤ c.toNat ∧ c.toNat ≤ 57 := Char.isDigit_iff_toNat.mp h
  have hless : c.toNat - 48 < 10 := by omega
  refine ⟨hless, Char.toNat_inj.mp ?_⟩
  rw [Nat.toNat_digitChar_of_lt_ten hless]
  omega

theorem digitsOf_isDigit {c : Char} (h : c.isDigit = true) : digitsOf (c.toNat - 48) = [c] := by
  obtain ⟨hless, hchar⟩ := digitChar_of_isDigit h
  rw [digitsOf, Nat.toDigits_of_lt_base hless, hchar]

/-- One more digit is written behind a number above zero. -/
theorem digitsOf_concat {n : Nat} (hn : 0 < n) {c : Char} (h : c.isDigit = true) :
    digitsOf n ++ [c] = digitsOf (10 * n + (c.toNat - 48)) := by
  have hlow : digitsOf (c.toNat - 48) = [c] := digitsOf_isDigit h
  rw [← hlow]
  exact Nat.toDigits_append_toDigits (by decide) hn (digitChar_of_isDigit h).1

theorem digitsOf_append {n : Nat} (hn : 0 < n) {digits : List Char} (h : Digits digits) :
    digitsOf n ++ digits = digitsOf (Nat.ofDigitChars 10 digits n) := by
  induction digits generalizing n with
  | nil => rw [List.append_nil, Nat.ofDigitChars_nil]
  | cons c rest ih =>
    have hc : c.isDigit = true := h c List.mem_cons_self
    have hrest : Digits rest := fun d hd => h d (List.mem_cons_of_mem c hd)
    have hpos : 0 < 10 * n + (c.toNat - 48) := by omega
    calc digitsOf n ++ c :: rest = digitsOf n ++ [c] ++ rest := by simp
      _ = digitsOf (10 * n + (c.toNat - 48)) ++ rest := by rw [digitsOf_concat hn hc]
      _ = digitsOf (Nat.ofDigitChars 10 (c :: rest) n) := by
        rw [ih hpos hrest, Nat.ofDigitChars_cons]
        rfl

/-- Digits of a number above zero are its numeral behind zeros. -/
theorem digitsOf_value {digits : List Char} (h : Digits digits) (hpos : 0 < value digits) :
    digitsOf (value digits) = dropZeros digits := by
  induction digits with
  | nil => exact absurd hpos (Nat.lt_irrefl 0)
  | cons c rest ih =>
    have hc : c.isDigit = true := h c List.mem_cons_self
    have hrest : Digits rest := fun d hd => h d (List.mem_cons_of_mem c hd)
    by_cases hzero : c = '0'
    · subst hzero
      rw [value_zero_cons] at hpos ⊢
      rw [ih hrest hpos]
      rfl
    · have hcount : 0 < c.toNat - 48 := by
        have hrange : 48 ≤ c.toNat ∧ c.toNat ≤ 57 := Char.isDigit_iff_toNat.mp hc
        have hne : c.toNat ≠ 48 := fun heq => hzero (Char.toNat_inj.mp heq)
        omega
      have hvalue : value (c :: rest) = Nat.ofDigitChars 10 rest (c.toNat - 48) := by
        rw [value, Nat.ofDigitChars_cons, Nat.mul_zero, Nat.zero_add]
        rfl
      rw [hvalue, ← digitsOf_append hcount hrest, digitsOf_isDigit hc, dropZeros,
        List.dropWhile_cons_of_neg (by simpa using hzero), List.singleton_append]

end Decimal
end Worksheet
