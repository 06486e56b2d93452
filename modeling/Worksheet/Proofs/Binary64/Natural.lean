/-
Natural numbers in doubles.

Arithmetic on natural numbers is exact as long as the numbers are safe.  A number that has
outgrown the safe ones is rounded, at every step anew, but it never falls below 2^53 again:
`Tracks` says both of a double beside an exact number, and multiplying and adding keep it
(`Tracks.mul`, `Tracks.add`).  So a comparison with a safe bound is right for a number of any
length, although the double may be far from the number and even infinite.
-/
import Worksheet.Proofs.Binary64.Whole

namespace Worksheet
namespace Binary64

/-! ## Exact numbers -/

theorem ofNat_eq_ofInt (n : Nat) : ofNat n = ofInt n := by
  unfold ofNat ofInt
  rw [Int.natAbs_natCast, decide_eq_false (by omega)]

theorem ofNat_of_fits {n : Nat} (h : Fits (n * one)) : ofNat n = .finite false (n * one) h := by
  have hfits := ofRatio_of_fits false h Nat.one_pos
  rwa [Nat.mul_one] at hfits

theorem ofNat_eq_finite {n : Nat} (h : n ≤ bitBound) :
    ofNat n = .finite false (n * one) (fits_mul_one h) := ofNat_of_fits (fits_mul_one h)

theorem toNat?_of_toInt? {x : Binary64} {n : Int} (h : x.toInt? = some n) :
    x.toNat? = if 0 ≤ n then some n.toNat else none := by
  simp only [toNat?, h]

theorem toNat?_ofInt {n : Int} (h : n.natAbs ≤ bitBound) :
    (ofInt n).toNat? = if 0 ≤ n then some n.toNat else none :=
  toNat?_of_toInt? (toInt?_ofInt h)

theorem toNat?_ofNat {n : Nat} (h : n ≤ bitBound) : (ofNat n).toNat? = some n := by
  rw [ofNat_eq_ofInt, toNat?_ofInt (by rwa [Int.natAbs_natCast]), if_pos (Int.natCast_nonneg n),
    Int.toNat_natCast]

theorem toNat?_ofNat_of_safe {n : Nat} (h : n ≤ maxSafe) : (ofNat n).toNat? = some n :=
  toNat?_ofNat (le_bitBound_of_le_maxSafe h)

theorem toNat?_finite_false {units : Nat} (fits : Fits units) :
    (Binary64.finite false units fits).toNat? =
      if units % one = 0 then some (units / one) else none := by
  unfold toNat? toInt?
  by_cases hwhole : units % one = 0
  · simp only [if_pos hwhole, signed, Bool.false_eq_true, if_false]
    rw [if_pos (Int.natCast_nonneg _), Int.toNat_natCast]
  · simp only [if_neg hwhole]

/-- Of the numbers with a minus sign only zero is natural. -/
theorem eq_zero_of_toNat?_finite_true {units n : Nat} {fits : Fits units}
    (h : (Binary64.finite true units fits).toNat? = some n) : n = 0 ∧ units = 0 := by
  unfold toNat? toInt? at h
  by_cases hwhole : units % one = 0
  · have hunits : units / one * one = units := Nat.div_mul_cancel (Nat.dvd_of_mod_eq_zero hwhole)
    simp only [if_pos hwhole, signed, if_true] at h
    generalize units / one = whole at h hunits
    by_cases hneg : 0 ≤ -(whole : Int)
    · have hzero : whole = 0 := by omega
      rw [if_pos hneg, hzero] at h
      rw [hzero, Nat.zero_mul] at hunits
      exact ⟨(Option.some.inj h).symm, hunits.symm⟩
    · rw [if_neg hneg] at h
      cases h
  · simp only [if_neg hwhole] at h
    cases h

/-- A double that is a natural number is the double of it, or the negative zero. -/
theorem eq_of_toNat?_eq_some {x : Binary64} {n : Nat} (h : x.toNat? = some n)
    (hn : n ≤ bitBound) : x = ofNat n ∨ n = 0 ∧ x = zero true := by
  cases x with
  | nan => cases h
  | infinite negative => cases h
  | finite negative units fits =>
    cases negative with
    | false =>
      rw [toNat?_finite_false] at h
      by_cases hwhole : units % one = 0
      · rw [if_pos hwhole] at h
        have hunits : units / one * one = units :=
          Nat.div_mul_cancel (Nat.dvd_of_mod_eq_zero hwhole)
        rw [Option.some.inj h] at hunits
        subst hunits
        exact .inl (ofNat_eq_finite hn).symm
      · rw [if_neg hwhole] at h
        cases h
    | true =>
      obtain ⟨hn, hunits⟩ := eq_zero_of_toNat?_finite_true h
      subst hunits
      exact .inr ⟨hn, rfl⟩

theorem add_ofNat {m n : Nat} (hm : m ≤ bitBound) (hn : n ≤ bitBound) :
    ofNat m + ofNat n = ofNat (m + n) := by
  rw [ofNat_eq_ofInt, ofNat_eq_ofInt, ofNat_eq_ofInt, Int.natCast_add]
  exact add_ofInt (by rwa [Int.natAbs_natCast]) (by rwa [Int.natAbs_natCast])

theorem one_le_bitBound : 1 ≤ bitBound := powTwo_pos 53

/-- Taking one away from zero gives minus one. -/
theorem ofNat_sub_one {n : Nat} (h : n ≤ bitBound) : ofNat n - 1 = ofInt ((n : Int) - 1) := by
  have hone : (1 : Binary64) = ofInt 1 := ofNat_eq_ofInt 1
  rw [hone, ofNat_eq_ofInt]
  exact sub_ofInt (by rwa [Int.natAbs_natCast]) one_le_bitBound

theorem ofNat_succ_sub_one {n : Nat} (h : n + 1 ≤ bitBound) : ofNat (n + 1) - 1 = ofNat n := by
  rw [ofNat_sub_one h, ofNat_eq_ofInt]
  congr 1
  omega

/-- A product rounds its exact value, as it is written in units. -/
theorem mul_ofNat_eq_ofRatio {m n : Nat} (hm : Fits (m * one)) (hn : Fits (n * one)) :
    ofNat m * ofNat n = ofRatio false (m * n * one * one) one := by
  show mul (ofNat m) (ofNat n) = _
  rw [ofNat_of_fits hm, ofNat_of_fits hn]
  have hunits : m * one * (n * one) = m * n * one * one := by ring
  simp only [mul, hunits]
  rfl

theorem mul_ofNat {m n : Nat} (hm : Fits (m * one)) (hn : Fits (n * one))
    (hmn : Fits (m * n * one)) : ofNat m * ofNat n = ofNat (m * n) := by
  rw [mul_ofNat_eq_ofRatio hm hn, ofRatio_of_fits false hmn one_pos, ofNat_of_fits hmn]

theorem mod_ofNat {m n : Nat} (hm : m ≤ bitBound) (hn : n ≤ bitBound) (hpos : 0 < n) :
    ofNat m % ofNat n = ofNat (m % n) := by
  show mod (ofNat m) (ofNat n) = ofNat (m % n)
  have hne : n * one ≠ 0 := Nat.ne_of_gt (Nat.mul_pos hpos one_pos)
  rw [ofNat_eq_finite hm, ofNat_eq_finite hn]
  simp only [mod]
  rw [if_neg hne, Nat.mul_mod_mul_right]
  rfl

/-! ## Order -/

theorem compareBy_eq_true_iff {holds : Int → Int → Bool} {x y : Binary64} :
    compareBy holds x y = true ↔
      ∃ a b, x.rank = some a ∧ y.rank = some b ∧ holds a b = true := by
  unfold compareBy
  cases x.rank <;> cases y.rank <;> simp

theorem lt_iff {x y : Binary64} :
    x.lt y = true ↔ ∃ a b, x.rank = some a ∧ y.rank = some b ∧ a < b := by
  simp only [lt, compareBy_eq_true_iff, decide_eq_true_eq]

theorem le_iff {x y : Binary64} :
    x.le y = true ↔ ∃ a b, x.rank = some a ∧ y.rank = some b ∧ a ≤ b := by
  simp only [le, compareBy_eq_true_iff, decide_eq_true_eq]

theorem le_of_lt {x y : Binary64} (h : x.lt y = true) : x.le y = true := by
  obtain ⟨a, b, ha, hb, hless⟩ := lt_iff.mp h
  exact le_iff.mpr ⟨a, b, ha, hb, Int.le_of_lt hless⟩

theorem lt_of_lt_of_le {x y z : Binary64} (hxy : x.lt y = true) (hyz : y.le z = true) :
    x.lt z = true := by
  obtain ⟨a, b, ha, hb, hab⟩ := lt_iff.mp hxy
  obtain ⟨b', c, hb', hc, hbc⟩ := le_iff.mp hyz
  obtain rfl : b = b' := Option.some.inj (hb.symm.trans hb')
  exact lt_iff.mpr ⟨a, c, ha, hc, Int.lt_of_lt_of_le hab hbc⟩

theorem eq_eq_false_of_lt {x y : Binary64} (h : x.lt y = true) : x.eq y = false := by
  obtain ⟨a, b, ha, hb, hab⟩ := lt_iff.mp h
  simp only [eq, compareBy, ha, hb]
  exact decide_eq_false (Int.ne_of_lt hab)

theorem lt_ofNat {m n : Nat} (hm : m ≤ bitBound) (hn : n ≤ bitBound) :
    lt (ofNat m) (ofNat n) = decide (m < n) := by
  rw [ofNat_eq_finite hm, ofNat_eq_finite hn]
  simp only [lt, compareBy, rank, signed, Bool.false_eq_true, if_false, decide_eq_decide]
  rw [Int.ofNat_lt]
  exact Nat.mul_lt_mul_right one_pos

theorem le_ofNat {m n : Nat} (hm : m ≤ bitBound) (hn : n ≤ bitBound) (h : m ≤ n) :
    le (ofNat m) (ofNat n) = true := by
  rw [ofNat_eq_finite hm, ofNat_eq_finite hn]
  exact le_iff.mpr ⟨_, _, rfl, rfl, Int.ofNat_le.mpr (Nat.mul_le_mul_right one h)⟩

theorem lt_zero_ofNat {n : Nat} (h : n ≤ bitBound) : lt 0 (ofNat n) = decide (0 < n) :=
  lt_ofNat (Nat.zero_le bitBound) h

theorem lt_zero_zero (negative : Bool) : lt 0 (zero negative) = false := by
  have hzero : (0 : Binary64) = ofNat 0 := rfl
  rw [hzero, ofNat_eq_finite (Nat.zero_le bitBound)]
  cases negative <;> simp [lt, compareBy, rank, signed, zero]

theorem isInteger_of_toNat? {x : Binary64} {n : Nat} (h : x.toNat? = some n) :
    x.isInteger = true := by
  unfold toNat? at h
  unfold isInteger
  cases hx : x.toInt? with
  | none => simp [hx] at h
  | some k => rfl

theorem not_lt_zero_of_toNat? {x : Binary64} {n : Nat} (h : x.toNat? = some n) :
    lt x 0 = false := by
  have hzero : (0 : Binary64) = ofNat 0 := rfl
  rw [hzero, ofNat_eq_finite (Nat.zero_le bitBound)]
  cases x with
  | nan => cases h
  | infinite negative => cases h
  | finite negative units fits =>
    simp only [lt, compareBy, rank, decide_eq_false_iff_not]
    cases negative with
    | false => simp [signed]
    | true =>
      obtain ⟨-, hunits⟩ := eq_zero_of_toNat?_finite_true h
      simp [signed, hunits]

/-! ## Quotients -/

/-- Of a quotient of natural numbers, the last place that is kept is smaller than two parts of
the divisor. -/
theorem mul_lastPlace_quotient_lt {m n : Nat} (hm : m < bitBound) (hn : n ≤ bitBound)
    (hpos : 0 < n) : n * lastPlace (m * one / n) < 2 * one := by
  have htwo : powTwo 1 = 2 := rfl
  by_cases hbits : 52 ≤ (m * one / n).log2
  · have hhead : powTwo 52 * lastPlace (m * one / n) * n ≤ m * one := by
      have hle : powTwo 52 * lastPlace (m * one / n) ≤ m * one / n :=
        (Nat.le_div_iff_mul_le (lastPlace_pos _)).mp (le_div_lastPlace hbits)
      exact (Nat.le_div_iff_mul_le hpos).mp hle
    have hsplit : bitBound = powTwo 52 * 2 := by rw [← htwo, ← powTwo_add, bitBound]
    refine Nat.lt_of_mul_lt_mul_left (a := powTwo 52) ?_
    calc powTwo 52 * (n * lastPlace (m * one / n))
        = powTwo 52 * lastPlace (m * one / n) * n := by ring
      _ ≤ m * one := hhead
      _ < bitBound * one := Nat.mul_lt_mul_of_pos_right hm one_pos
      _ = powTwo 52 * (2 * one) := by rw [hsplit, Nat.mul_assoc]
  · have hplace : lastPlace (m * one / n) = 1 := by
      rw [lastPlace, Nat.sub_eq_zero_of_le (by omega)]
      rfl
    rw [hplace, Nat.mul_one]
    calc n ≤ bitBound := hn
      _ < powTwo (1 + fractionBits) := powTwo_lt_powTwo (by unfold fractionBits; omega)
      _ = 2 * one := by rw [powTwo_add, htwo, one]

/-- The quotient of two natural numbers of at most 53 bits, rounded to a double, does not
reach the next natural number: it stays away from it by one part of the divisor at least,
and it is moved by less. -/
theorem roundUnits_quotient_lt {m n : Nat} (hm : m < bitBound) (hn : n ≤ bitBound) (hpos : 0 < n) :
    roundUnits (m * one * one) (n * one) < (m / n + 1) * one := by
  have hone := one_pos
  have hquot : m * one * one / (n * one) = m * one / n := Nat.mul_div_mul_right _ _ hone
  have hround := two_mul_roundUnits_mul_le (m * one * one) (n * one)
  rw [hquot] at hround
  have hrest : m + 1 ≤ (m / n + 1) * n := by
    have hlt : m < n * (m / n + 1) := Nat.lt_mul_div_succ m hpos
    have hswap : n * (m / n + 1) = (m / n + 1) * n := Nat.mul_comm _ _
    omega
  -- How far the exact quotient stays away, and by how much rounding can move it, both doubled.
  have hexact : 2 * (m * one * one) + 2 * (one * one) ≤ 2 * ((m / n + 1) * one * (n * one)) := by
    have hscaled : (m + 1) * (one * one) ≤ (m / n + 1) * n * (one * one) :=
      Nat.mul_le_mul_right _ hrest
    have hleft : (m + 1) * (one * one) = m * one * one + one * one := by ring
    have hright : (m / n + 1) * n * (one * one) = (m / n + 1) * one * (n * one) := by ring
    omega
  have hmove : n * one * lastPlace (m * one / n) < 2 * (one * one) := by
    have hscaled : n * lastPlace (m * one / n) * one < 2 * one * one :=
      Nat.mul_lt_mul_of_pos_right (mul_lastPlace_quotient_lt hm hn hpos) hone
    have hleft : n * one * lastPlace (m * one / n) = n * lastPlace (m * one / n) * one := by ring
    have hright : 2 * (one * one) = 2 * one * one := by ring
    omega
  refine Nat.lt_of_mul_lt_mul_right (a := n * one) ?_
  omega

/-- Dividing and cutting to a whole number is exact. -/
theorem floor_div_ofNat {m n : Nat} (hm : m < bitBound) (hn : n ≤ bitBound) (hpos : 0 < n) :
    (ofNat m / ofNat n).floor = ofNat (m / n) := by
  have hne : n * one ≠ 0 := Nat.ne_of_gt (Nat.mul_pos hpos one_pos)
  have hquot : m / n ≤ bitBound := Nat.le_trans (Nat.div_le_self m n) (Nat.le_of_lt hm)
  -- The exact quotient of the division lies between two natural numbers, and so does the double.
  have hlow : m / n * one ≤ roundUnits (m * one * one) (n * one) := by
    refine le_roundUnits (fits_mul_one hquot).2 (Nat.mul_pos hpos one_pos) ?_
    calc m / n * one * (n * one) = m / n * n * (one * one) := by ring
      _ ≤ m * (one * one) := Nat.mul_le_mul_right _ (Nat.div_mul_le_self m n)
      _ = m * one * one := by ring
  have hhigh := roundUnits_quotient_lt hm hn hpos
  have hcut : roundUnits (m * one * one) (n * one) / one = m / n :=
    Nat.div_eq_of_lt_le hlow hhigh
  have hfinite : roundUnits (m * one * one) (n * one) < overflow := by
    have hnext : m / n + 1 ≤ bitBound := by
      have := Nat.div_le_self m n
      omega
    exact Nat.lt_of_lt_of_le hhigh (Nat.le_of_lt (fits_mul_one hnext).1)
  have hdiv : ofNat m / ofNat n = ofRatio false (m * one * one) (n * one) := by
    show div (ofNat m) (ofNat n) = _
    rw [ofNat_eq_finite (Nat.le_of_lt hm), ofNat_eq_finite hn]
    simp only [div]
    rw [if_neg hne]
    rfl
  rw [hdiv, ofRatio, dif_pos hfinite]
  simp only [floor, Bool.false_eq_true, if_false]
  rw [hcut]
  rfl

/-! ## One more -/

theorem two_mul_one : 2 * one = powTwo (1 + fractionBits) := by
  have htwo : powTwo 1 = 2 := rfl
  rw [powTwo_add, htwo, one]

theorem bitBound_mul_one : bitBound * one = powTwo (53 + fractionBits) := by
  rw [powTwo_add, bitBound, one]

theorem overflow_eq : overflow = powTwo (1024 + fractionBits) := rfl

/-- A number that 53 bits hold leaves room for the place of its last bit below a power of two. -/
theorem add_lastPlace_le {u : Nat} (hfit : lastPlace u ∣ u) {k : Nat} (h : u < powTwo k)
    (hplace : u.log2 - 52 ≤ k) : u + lastPlace u ≤ powTwo k := by
  have hdvd : lastPlace u ∣ powTwo k := powTwo_dvd_powTwo hplace
  obtain ⟨m, hm⟩ := hfit
  obtain ⟨n, hn⟩ := hdvd
  have hless : m < n := by
    refine Nat.lt_of_mul_lt_mul_left (a := lastPlace u) ?_
    rw [← hm, ← hn]
    exact h
  calc u + lastPlace u = lastPlace u * (m + 1) := by rw [Nat.mul_add, ← hm, Nat.mul_one]
    _ ≤ lastPlace u * n := Nat.mul_le_mul_left _ hless
    _ = powTwo k := hn.symm

section

variable {u : Nat}

/-- From 2^53 on, in units. -/
theorem le_log2_of_large (h : bitBound * one ≤ u) : 53 + fractionBits ≤ u.log2 := by
  rw [bitBound_mul_one] at h
  exact le_log2_of_powTwo_le h

theorem ne_zero_of_large (h : bitBound * one ≤ u) : u ≠ 0 := by
  have hbits := le_log2_of_large h
  rintro rfl
  rw [Nat.log2_zero] at hbits
  omega

theorem two_mul_one_le_lastPlace (h : bitBound * one ≤ u) : 2 * one ≤ lastPlace u := by
  have hbits := le_log2_of_large h
  rw [two_mul_one]
  exact powTwo_le_powTwo (by omega)

/-- The last place is at least two, so one more stays below the same power of two. -/
theorem log2_add_one (hfit : lastPlace u ∣ u) (h : bitBound * one ≤ u) :
    (u + one).log2 = u.log2 := by
  have hone := one_pos
  have hplace := two_mul_one_le_lastPlace h
  have hnext : u + lastPlace u ≤ powTwo (u.log2 + 1) :=
    add_lastPlace_le hfit (lt_powTwo_of_log2_lt (Nat.lt_succ_self _)) (by omega)
  have hle : u.log2 ≤ (u + one).log2 := log2_le_log2 (Nat.le_add_right u one)
  have hlt : (u + one).log2 < u.log2 + 1 := log2_lt_of_lt_powTwo (by omega) (by omega)
  omega

theorem lastPlace_add_one (hfit : lastPlace u ∣ u) (h : bitBound * one ≤ u) :
    lastPlace ((u + one) / 1) = lastPlace u := by
  rw [Nat.div_one, lastPlace, log2_add_one hfit h, lastPlace]

/-- A large number and one more do not round past the largest double. -/
theorem roundUnits_add_one_lt (hu : Fits u) (h : bitBound * one ≤ u) :
    roundUnits (u + one) 1 < overflow := by
  have hbits := le_log2_of_large h
  have hplace := two_mul_one_le_lastPlace h
  have hround := two_mul_roundUnits_mul_le (u + one) 1
  rw [lastPlace_add_one hu.2 h, Nat.mul_one, Nat.one_mul] at hround
  have hlast : u.log2 < 1024 + fractionBits :=
    log2_lt_of_lt_powTwo (ne_zero_of_large h) hu.1
  by_cases htop : u.log2 + 1 < 1024 + fractionBits
  · have hless : powTwo (u.log2 + 1) < overflow := by
      rw [overflow_eq]
      exact powTwo_lt_powTwo htop
    have hnext : u + lastPlace u ≤ powTwo (u.log2 + 1) :=
      add_lastPlace_le hu.2 (lt_powTwo_of_log2_lt (Nat.lt_succ_self _)) (by omega)
    omega
  · have hroom : u + lastPlace u ≤ overflow := by
      rw [overflow_eq]
      exact add_lastPlace_le hu.2 hu.1 (by omega)
    have hwide : 2 * one < lastPlace u := by
      rw [two_mul_one]
      exact powTwo_lt_powTwo (by omega)
    omega

theorem one_dvd_roundUnits_add_one (hfit : lastPlace u ∣ u) (h : bitBound * one ≤ u) :
    one ∣ roundUnits (u + one) 1 := by
  have hbits := le_log2_of_large h
  have hwhole : one ∣ lastPlace u := powTwo_dvd_powTwo (by omega)
  unfold roundUnits
  rw [lastPlace_add_one hfit h]
  exact Nat.dvd_trans hwhole (Nat.dvd_mul_left _ _)

theorem finite_add_one {u : Nat} (hu : Fits u) :
    Binary64.finite false u hu + 1 = ofRatio false (u + one) 1 := by
  show add (.finite false u hu) (ofNat 1) = _
  have hone := one_pos
  have htotal : signed false u + signed false (1 * one) = ((u + one : Nat) : Int) := by
    rw [Nat.one_mul, Int.natCast_add]
    rfl
  rw [ofNat_eq_finite one_le_bitBound]
  simp only [add]
  rw [htotal, if_neg (by omega), decide_eq_false (by omega), Int.natAbs_natCast]

theorem exists_ofRatio_eq_finite (negative : Bool) {num den : Nat}
    (h : roundUnits num den < overflow) :
    ∃ fits, ofRatio negative num den = .finite negative (roundUnits num den) fits :=
  ⟨⟨h, lastPlace_dvd_roundUnits num den⟩, dif_pos h⟩

theorem zero_add_one : zero true + 1 = ofInt 1 := by
  show add (zero true) (ofNat 1) = ofInt 1
  have htotal : signed true 0 + signed false (1 * one) = 1 * one := by
    rw [Nat.one_mul, Int.one_mul]
    exact Int.zero_add _
  rw [ofNat_eq_finite one_le_bitBound]
  exact add_finite_whole htotal fun hone => (by cases hone)

theorem exists_toNat?_add_one_of_large (hu : Fits u) (h : bitBound * one ≤ u) :
    ∃ m, (Binary64.finite false u hu + 1).toNat? = some m := by
  obtain ⟨hfits, hsum⟩ := exists_ofRatio_eq_finite false (roundUnits_add_one_lt hu h)
  have hwhole := Nat.mod_eq_zero_of_dvd (one_dvd_roundUnits_add_one hu.2 h)
  rw [finite_add_one, hsum, toNat?_finite_false, if_pos hwhole]
  exact ⟨_, rfl⟩

end

/-- Below 2^53 one more is exact, and the sign of zero is lost. -/
theorem add_one_of_toNat? {x : Binary64} {n : Nat} (h : x.toNat? = some n) (hn : n < bitBound) :
    x + 1 = ofNat (n + 1) := by
  rcases eq_of_toNat?_eq_some h (Nat.le_of_lt hn) with hx | ⟨hzero, hx⟩
  · rw [hx]
    exact add_ofNat (Nat.le_of_lt hn) one_le_bitBound
  · rw [hx, hzero, zero_add_one, ofNat_eq_ofInt]
    rfl

/-- One more than a whole number that is not below zero is one again, however large it is. -/
theorem exists_toNat?_add_one {x : Binary64} {n : Nat} (h : x.toNat? = some n) :
    ∃ m, (x + 1).toNat? = some m := by
  by_cases hn : n < bitBound
  · rw [add_one_of_toNat? h hn]
    exact ⟨n + 1, toNat?_ofNat hn⟩
  · cases x with
    | nan => cases h
    | infinite negative => cases h
    | finite negative units fits =>
      cases negative with
      | true =>
        obtain ⟨rfl, -⟩ := eq_zero_of_toNat?_finite_true h
        exact absurd (powTwo_pos 53) hn
      | false =>
        rw [toNat?_finite_false] at h
        split at h
        · have hunits : bitBound * one ≤ units := by
            rw [← Option.some.inj h] at hn
            exact (Nat.le_div_iff_mul_le one_pos).mp (Nat.le_of_not_lt hn)
          exact exists_toNat?_add_one_of_large fits hunits
        · cases h

/-! ## Numbers beyond the safe ones -/

/-- The double is infinite or at least the number. -/
def AtLeast (k : Nat) (x : Binary64) : Prop :=
  x = .infinite false ∨ ∃ units fits, x = .finite false units fits ∧ k * one ≤ units

theorem atLeast_ofRatio {k num den : Nat} (hk : k ≤ bitBound) (hd : 0 < den)
    (h : k * one * den ≤ num) : AtLeast k (ofRatio false num den) := by
  unfold ofRatio
  split
  · exact .inr ⟨_, _, rfl, le_roundUnits (fits_mul_one hk).2 hd h⟩
  · exact .inl rfl

theorem atLeast_ofNat {k n : Nat} (hk : k ≤ bitBound) (h : k ≤ n) : AtLeast k (ofNat n) := by
  refine atLeast_ofRatio hk Nat.one_pos ?_
  rw [Nat.mul_one]
  exact Nat.mul_le_mul_right one h

theorem AtLeast.le_of_toNat? {k n : Nat} {x : Binary64} (h : AtLeast k x)
    (hx : x.toNat? = some n) : k ≤ n := by
  rcases h with rfl | ⟨units, fits, rfl, hunits⟩
  · cases hx
  · rw [toNat?_finite_false] at hx
    split at hx
    · rw [← Option.some.inj hx]
      exact (Nat.le_div_iff_mul_le one_pos).mpr hunits
    · cases hx

/-- A sum of two numbers is at least what the exact sum is at least. -/
theorem atLeast_add {k m : Nat} {t : Bool} {n : Nat} {hm : Fits m} {hn : Fits n} (hpos : 0 < k)
    (hk : k ≤ bitBound) (h : (k * one : Nat) ≤ (m : Int) + signed t n) :
    AtLeast k (add (.finite false m hm) (.finite t n hn)) := by
  have hleast : 0 < k * one := Nat.mul_pos hpos one_pos
  simp only [add]
  have hsum : signed false m + signed t n = ((m : Int) + signed t n) := rfl
  rw [hsum, if_neg (by omega), decide_eq_false (by omega)]
  refine atLeast_ofRatio hk Nat.one_pos ?_
  omega

theorem AtLeast.add_ofNat {k d : Nat} {x : Binary64} (h : AtLeast k x) (hpos : 0 < k)
    (hk : k ≤ bitBound) (hd : d ≤ bitBound) : AtLeast k (x + ofNat d) := by
  show AtLeast k (add x (ofNat d))
  rw [ofNat_eq_finite hd]
  rcases h with rfl | ⟨units, fits, rfl, hunits⟩
  · exact .inl rfl
  · refine atLeast_add hpos hk ?_
    simp only [signed, Bool.false_eq_true, if_false]
    omega

theorem AtLeast.sub_one {k : Nat} {x : Binary64} (h : AtLeast (k + 1) x) (hpos : 0 < k)
    (hk : k ≤ bitBound) : AtLeast k (x - 1) := by
  have hone : (1 : Binary64) = .finite false (1 * one) (fits_mul_one one_le_bitBound) :=
    ofNat_eq_finite one_le_bitBound
  rw [sub_eq_add_neg, hone, neg_finite]
  rcases h with rfl | ⟨units, fits, rfl, hunits⟩
  · exact .inl rfl
  · refine atLeast_add hpos hk ?_
    have hsplit : (k + 1) * one = k * one + 1 * one := Nat.add_mul k 1 one
    simp only [signed, Bool.not_false, if_true]
    omega

theorem AtLeast.mul_ofNat {k b : Nat} {x : Binary64} (h : AtLeast k x) (hk : k ≤ bitBound)
    (hpos : 0 < b) (hb : b ≤ bitBound) : AtLeast k (x * ofNat b) := by
  have hne : b * one ≠ 0 := Nat.ne_of_gt (Nat.mul_pos hpos one_pos)
  show AtLeast k (mul x (ofNat b))
  rw [ofNat_eq_finite hb]
  rcases h with rfl | ⟨units, fits, rfl, hunits⟩
  · left
    simp only [mul]
    rw [if_neg hne]
    rfl
  · refine atLeast_ofRatio hk one_pos ?_
    have hgrow : units * one ≤ units * (b * one) :=
      Nat.mul_le_mul_left units (Nat.le_mul_of_pos_left one hpos)
    exact Nat.le_trans (Nat.mul_le_mul_right one hunits) hgrow

/-! ## A double beside an exact number -/

/-- The double is the number as long as the number is safe, and is no safe number after that. -/
structure Tracks (x : Binary64) (n : Nat) : Prop where
  exact : n ≤ maxSafe → x = ofNat n
  large : maxSafe < n → AtLeast bitBound x

theorem maxSafe_add_one : maxSafe + 1 = bitBound := Nat.sub_add_cancel one_le_bitBound

theorem le_bitBound_of_not_large {n : Nat} (h : ¬ maxSafe < n) : n ≤ bitBound :=
  le_bitBound_of_le_maxSafe (Nat.le_of_not_lt h)

/-- Rounding once tracks. -/
theorem tracks_ofNat (n : Nat) : Tracks (ofNat n) n := by
  refine ⟨fun _ => rfl, fun hlarge => atLeast_ofNat (Nat.le_refl _) ?_⟩
  rw [← maxSafe_add_one]
  exact hlarge

namespace Tracks

variable {x : Binary64} {n : Nat}

theorem add (h : Tracks x n) {d : Nat} (hd : d ≤ bitBound) : Tracks (x + ofNat d) (n + d) := by
  by_cases hlarge : maxSafe < n
  · refine ⟨fun hsafe => by omega, fun _ => ?_⟩
    exact (h.large hlarge).add_ofNat one_le_bitBound (Nat.le_refl _) hd
  · rw [h.exact (Nat.le_of_not_lt hlarge), Binary64.add_ofNat (le_bitBound_of_not_large hlarge) hd]
    exact tracks_ofNat (n + d)

theorem mul (h : Tracks x n) {b : Nat} (hpos : 0 < b) (hb : b ≤ bitBound) :
    Tracks (x * ofNat b) (n * b) := by
  have hgrow : n ≤ n * b := Nat.le_mul_of_pos_right n hpos
  by_cases hlarge : maxSafe < n
  · refine ⟨fun hsafe => by omega, fun _ => ?_⟩
    exact (h.large hlarge).mul_ofNat (Nat.le_refl _) hpos hb
  · have hn := fits_mul_one (le_bitBound_of_not_large hlarge)
    have hbase := fits_mul_one hb
    rw [h.exact (Nat.le_of_not_lt hlarge)]
    refine ⟨fun hsafe => ?_, fun hout => ?_⟩
    · exact Binary64.mul_ofNat hn hbase (fits_mul_one (le_bitBound_of_le_maxSafe hsafe))
    · rw [mul_ofNat_eq_ofRatio hn hbase]
      refine atLeast_ofRatio (Nat.le_refl _) one_pos ?_
      have hreach : bitBound ≤ n * b := by
        rw [← maxSafe_add_one]
        exact hout
      exact Nat.mul_le_mul_right one (Nat.mul_le_mul_right one hreach)

/-- Counting from zero instead of one: below the safe bound the double decides the number. -/
theorem toNat?_sub_one_eq_some_iff (h : Tracks x n) {k : Nat} (hk : k < maxSafe) :
    (x - 1).toNat? = some k ↔ n = k + 1 := by
  by_cases hlarge : maxSafe < n
  · have hpos : 0 < maxSafe := by omega
    have hleast : AtLeast (maxSafe + 1) x := by
      rw [maxSafe_add_one]
      exact h.large hlarge
    constructor
    · intro hx
      have hle := (hleast.sub_one hpos (le_bitBound_of_le_maxSafe (Nat.le_refl _))).le_of_toNat? hx
      omega
    · intro heq
      omega
  · have hn := le_bitBound_of_not_large hlarge
    have hbound : ((n : Int) - 1).natAbs ≤ bitBound := by
      have := one_le_bitBound
      omega
    rw [h.exact (Nat.le_of_not_lt hlarge), ofNat_sub_one hn, toNat?_ofInt hbound]
    by_cases hzero : 0 ≤ (n : Int) - 1
    · rw [if_pos hzero, Option.some.injEq]
      omega
    · rw [if_neg hzero]
      constructor
      · intro hnone
        cases hnone
      · intro heq
        omega

end Tracks

end Binary64
end Worksheet
