/-
Double precision numbers, held exactly.

Every finite double is a whole number of units of 2^-1074, so it is kept as a sign, a
number of units and a proof that 53 significant bits hold it.  An operation computes its
exact result as a ratio of naturals and rounds once; `ofRatio` is the only place that
rounds.  Nothing here calls the machine's floating point, so statements about doubles are
statements about naturals, and `roundUnits_of_fits` is what makes whole numbers up to
2^53 exact: a value that 53 bits hold is not changed by rounding.
-/
namespace Worksheet
namespace Binary64

/-! ## The grid of doubles -/

/-- A power of two, which is not computed unless it is asked for. -/
def powTwo (n : Nat) : Nat := Nat.pow 2 n

theorem powTwo_pos (n : Nat) : 0 < powTwo n := Nat.two_pow_pos n

/-- The last binary place of the smallest double. -/
def fractionBits : Nat := 1074

def one : Nat := powTwo fractionBits

/-- The least number of units that is too large for a finite double, which is 2^1024. -/
def overflow : Nat := powTwo (1024 + fractionBits)

theorem one_pos : 0 < one := powTwo_pos fractionBits

theorem overflow_pos : 0 < overflow := powTwo_pos (1024 + fractionBits)

/-- The place value of the last of the 53 bits that start at the leading bit of `units`. -/
def lastPlace (units : Nat) : Nat := powTwo (units.log2 - 52)

theorem lastPlace_pos (units : Nat) : 0 < lastPlace units := powTwo_pos _

/-- Some finite double has this magnitude. -/
def Fits (units : Nat) : Prop := units < overflow ∧ lastPlace units ∣ units

instance (units : Nat) : Decidable (Fits units) :=
  inferInstanceAs (Decidable (_ ∧ _))

theorem fits_zero : Fits 0 := ⟨overflow_pos, Nat.dvd_zero _⟩

/-- One more than the largest number of 53 bits. -/
def bitBound : Nat := powTwo 53

/-- A number of at most 53 bits, moved left, loses nothing. -/
theorem lastPlace_dvd_of_shift {m k : Nat} (hm : m ≤ bitBound) :
    lastPlace (m * powTwo k) ∣ m * powTwo k := by
  simp only [lastPlace, bitBound, powTwo, Nat.pow_eq] at hm ⊢
  rcases Nat.eq_zero_or_pos m with rfl | hpos
  · rw [Nat.zero_mul]
    exact Nat.dvd_zero _
  · have hne : m * 2 ^ k ≠ 0 := Nat.ne_of_gt (Nat.mul_pos hpos (Nat.two_pow_pos k))
    rcases Nat.lt_or_ge m (2 ^ 53) with hlt | hge
    · have hlog : (m * 2 ^ k).log2 < 53 + k := by
        rw [Nat.log2_lt hne, Nat.pow_add]
        exact Nat.mul_lt_mul_of_pos_right hlt (Nat.two_pow_pos k)
      have hpow : 2 ^ ((m * 2 ^ k).log2 - 52) ∣ 2 ^ k := Nat.pow_dvd_pow 2 (by omega)
      exact Nat.dvd_trans hpow (Nat.dvd_mul_left _ _)
    · have hm' : m = 2 ^ 53 := Nat.le_antisymm hm hge
      subst hm'
      rw [← Nat.pow_add]
      have hlog : (2 ^ (53 + k)).log2 = 53 + k := Nat.log2_two_pow
      exact Nat.pow_dvd_pow 2 (by omega)

/-! ## Rounding -/

/-- The whole number nearest to `num / den`; a tie goes to the even one. -/
def nearest (num den : Nat) : Nat :=
  if den < 2 * (num % den) ∨ (2 * (num % den) = den ∧ num / den % 2 = 1) then
    num / den + 1
  else
    num / den

theorem nearest_le (num den : Nat) : nearest num den ≤ num / den + 1 := by
  unfold nearest
  split <;> omega

theorem nearest_mul_right {den : Nat} (hd : 0 < den) (n : Nat) : nearest (n * den) den = n := by
  unfold nearest
  rw [Nat.mul_mod_left, Nat.mul_div_cancel n hd, if_neg]
  omega

/-- The number of units nearest to `num / den` among those that 53 bits hold, with no
bound on the magnitude. -/
def roundUnits (num den : Nat) : Nat :=
  nearest num (den * lastPlace (num / den)) * lastPlace (num / den)

/-- The leading 53 bits of a quotient, rounded, are still at most 2^53. -/
theorem nearest_lastPlace_le (num den : Nat) :
    nearest num (den * lastPlace (num / den)) ≤ bitBound := by
  refine Nat.le_trans (nearest_le _ _) ?_
  rw [← Nat.div_div_eq_div_mul]
  refine Nat.div_lt_of_lt_mul ?_
  rcases Nat.eq_zero_or_pos (num / den) with h0 | hpos
  · rw [h0]
    exact Nat.mul_pos (lastPlace_pos _) (powTwo_pos 53)
  · simp only [lastPlace, bitBound, powTwo, Nat.pow_eq]
    rw [← Nat.pow_add]
    exact Nat.lt_of_lt_of_le (Nat.lt_log2_self (n := num / den))
      (Nat.pow_le_pow_right (by omega) (by omega))

theorem lastPlace_dvd_roundUnits (num den : Nat) :
    lastPlace (roundUnits num den) ∣ roundUnits num den :=
  lastPlace_dvd_of_shift (nearest_lastPlace_le num den)

theorem roundUnits_of_fits {units den : Nat} (h : lastPlace units ∣ units) (hd : 0 < den) :
    roundUnits (units * den) den = units := by
  obtain ⟨m, hm⟩ := h
  unfold roundUnits
  rw [Nat.mul_div_cancel units hd]
  have hp := lastPlace_pos units
  generalize lastPlace units = p at hm hp
  subst hm
  have hswap : p * m * den = m * (den * p) := by
    rw [Nat.mul_comm p m, Nat.mul_assoc, Nat.mul_comm p den]
  rw [hswap, nearest_mul_right (Nat.mul_pos hd hp), Nat.mul_comm]

end Binary64

/-! ## The type -/

/-- A double.  The two zeros differ in their sign; there is one value that is not a number. -/
inductive Binary64 where
  | nan
  | infinite (negative : Bool)
  | finite (negative : Bool) (units : Nat) (fits : Binary64.Fits units)
  deriving DecidableEq

namespace Binary64

/-- The double nearest to `num / den` units with the given sign.  A magnitude that rounds
past the largest finite one becomes infinite. -/
def ofRatio (negative : Bool) (num den : Nat) : Binary64 :=
  if h : roundUnits num den < overflow then
    .finite negative (roundUnits num den) ⟨h, lastPlace_dvd_roundUnits num den⟩
  else
    .infinite negative

def zero (negative : Bool) : Binary64 := .finite negative 0 fits_zero

/-- A multiple of a double's own denominator rounds to that double. -/
theorem ofRatio_of_fits (negative : Bool) {units den : Nat} (h : Fits units) (hd : 0 < den) :
    ofRatio negative (units * den) den = .finite negative units h := by
  unfold ofRatio
  have hr := roundUnits_of_fits h.2 hd
  rw [dif_pos (hr.symm ▸ h.1)]
  congr

def ofNat (n : Nat) : Binary64 := ofRatio false (n * one) 1

/-- The nearest double to a whole number.  Zero comes out without a sign. -/
def ofInt (n : Int) : Binary64 := ofRatio (decide (n < 0)) (n.natAbs * one) 1

instance (n : Nat) : OfNat Binary64 n := ⟨ofNat n⟩

instance : Inhabited Binary64 := ⟨zero false⟩

/-! ## Arithmetic -/

def signed (negative : Bool) (units : Nat) : Int := if negative then -units else units

def neg : Binary64 → Binary64
  | .nan => .nan
  | .infinite s => .infinite (!s)
  | .finite s m h => .finite (!s) m h

/-- The sum.  An exact zero is negative only when both operands are negative zeros. -/
def add : Binary64 → Binary64 → Binary64
  | .nan, _ => .nan
  | _, .nan => .nan
  | .infinite s, .infinite t => if s = t then .infinite s else .nan
  | .infinite s, .finite .. => .infinite s
  | .finite .., .infinite t => .infinite t
  | .finite s m _, .finite t n _ =>
    let total := signed s m + signed t n
    if total = 0 then zero (s && t) else ofRatio (decide (total < 0)) total.natAbs 1

def sub (x y : Binary64) : Binary64 := add x y.neg

def mul : Binary64 → Binary64 → Binary64
  | .nan, _ => .nan
  | _, .nan => .nan
  | .infinite s, .infinite t => .infinite (s != t)
  | .infinite s, .finite t n _ => if n = 0 then .nan else .infinite (s != t)
  | .finite s m _, .infinite t => if m = 0 then .nan else .infinite (s != t)
  | .finite s m _, .finite t n _ => ofRatio (s != t) (m * n) one

def div : Binary64 → Binary64 → Binary64
  | .nan, _ => .nan
  | _, .nan => .nan
  | .infinite _, .infinite _ => .nan
  | .infinite s, .finite t _ _ => .infinite (s != t)
  | .finite s _ _, .infinite t => zero (s != t)
  | .finite s m _, .finite t n _ =>
    if n = 0 then if m = 0 then .nan else .infinite (s != t)
    else ofRatio (s != t) (m * one) n

/-- The remainder of a division that truncates; it has the sign of the dividend and is
always exact. -/
def mod : Binary64 → Binary64 → Binary64
  | .nan, _ => .nan
  | _, .nan => .nan
  | .infinite _, _ => .nan
  | .finite s m h, .infinite _ => .finite s m h
  | .finite s m _, .finite _ n _ => if n = 0 then .nan else ofRatio s (m % n) 1

def floor : Binary64 → Binary64
  | .nan => .nan
  | .infinite s => .infinite s
  | .finite s m _ => ofRatio s ((if s then (m + (one - 1)) / one else m / one) * one) 1

def roundHalfUp : Binary64 → Binary64
  | .nan => .nan
  | .infinite s => .infinite s
  | .finite s m _ =>
    ofRatio s ((2 * m + (if s then one - 1 else one)) / (2 * one) * one) 1

instance : Neg Binary64 := ⟨neg⟩
instance : Add Binary64 := ⟨add⟩
instance : Sub Binary64 := ⟨sub⟩
instance : Mul Binary64 := ⟨mul⟩
instance : Div Binary64 := ⟨div⟩
instance : Mod Binary64 := ⟨mod⟩

/-! ## Order -/

/-- The place of a number on the line, in units; none for what is not a number.  The two
zeros have one place, and the infinities stand just outside the finite doubles. -/
def rank : Binary64 → Option Int
  | .nan => none
  | .infinite s => some (signed s overflow)
  | .finite s m _ => some (signed s m)

/-- Comparison by rank, which nothing that is not a number takes part in. -/
def compareBy (holds : Int → Int → Bool) (x y : Binary64) : Bool :=
  match x.rank, y.rank with
  | some a, some b => holds a b
  | _, _ => false

def lt (x y : Binary64) : Bool := compareBy (fun a b => decide (a < b)) x y

def le (x y : Binary64) : Bool := compareBy (fun a b => decide (a ≤ b)) x y

/-- Numeric equality: the zeros are equal, and what is not a number equals nothing. -/
def eq (x y : Binary64) : Bool := compareBy (fun a b => decide (a = b)) x y

/-! ## Whole numbers -/

/-- The exact value of a whole number; none for a fraction, an infinity or no number. -/
def toInt? : Binary64 → Option Int
  | .finite s m _ => if m % one = 0 then some (signed s (m / one)) else none
  | _ => none

/-- The exact value of a whole number that is not below zero.  Negative zero counts. -/
def toNat? (x : Binary64) : Option Nat :=
  match x.toInt? with
  | some n => if 0 ≤ n then some n.toNat else none
  | none => none

def isInteger (x : Binary64) : Bool := x.toInt?.isSome

/-- The largest whole number below which every whole number is a double of its own. -/
def maxSafe : Nat := bitBound - 1

/-- The exact value of a whole number whose magnitude is at most `maxSafe`. -/
def safeInt? (x : Binary64) : Option Int :=
  match x.toInt? with
  | some n => if n.natAbs ≤ maxSafe then some n else none
  | none => none

def isSafe (x : Binary64) : Bool := x.safeInt?.isSome

/-- The whole part, cut toward zero; none for an infinity or no number. -/
def truncate? : Binary64 → Option Int
  | .finite s m _ => some (signed s (m / one))
  | _ => none

end Binary64
end Worksheet
