/-
Column labels are numerals.

`ColumnLabel.value` is the exact number of a label, in base 26 with digits from one to
twenty-six.  Reading folds from the high end and rounds at every step; it tracks the exact number
(`readFrom_tracks`).  Writing takes digits off the low end, and for a safe number every step is
exact (`writeBefore_ofNat`).  Without a zero digit a number has only one numeral
(`value_injective`), so on the safe numbers reading and writing undo each other.
-/
import Worksheet.Proofs.Binary64.Natural
import Worksheet.Label.Column
import Mathlib.Data.Nat.Digits.Defs

namespace Worksheet
namespace ColumnLabel

open Binary64

/-! ## The exact number of a label -/

/-- The number that letters spell, with no bound and no rounding. -/
def value (letters : List Char) : Nat := Nat.ofDigits 26 (letters.reverse.map letterValue)

theorem value_nil : value [] = 0 := rfl

theorem value_append (front back : List Char) :
    value (front ++ back) = value front * 26 ^ back.length + value back := by
  unfold value
  rw [List.reverse_append, List.map_append, Nat.ofDigits_append, List.length_map,
    List.length_reverse]
  ring

theorem value_concat (front : List Char) (c : Char) :
    value (front ++ [c]) = value front * 26 + letterValue c := by
  rw [value_append, List.length_singleton, Nat.pow_one]
  show value front * 26 + (letterValue c + 26 * 0) = _
  omega

/-! ## Capital letters -/

theorem isAlpha_of_isUpper {c : Char} (h : c.isUpper = true) : c.isAlpha = true := by
  show (c.isUpper || c.isLower) = true
  rw [h, Bool.true_or]

theorem isUpper_letter {place : Nat} (h : place < 26) : (letter place).isUpper = true := by
  have hall : ∀ p ∈ List.range 26, (letter p).isUpper = true := by decide
  exact hall place (List.mem_range.mpr h)

theorem toNat_lt_of_isAlpha {c : Char} (h : c.isAlpha = true) : c.toNat < 123 := by
  have hcase : (c.isUpper || c.isLower) = true := h
  rcases (Bool.or_eq_true _ _).mp hcase with hupper | hlower
  · have hrange : 65 ≤ c.toNat ∧ c.toNat ≤ 90 := of_decide_eq_true hupper
    omega
  · have hrange := (Bool.and_eq_true _ _).mp hlower
    have hlast : c.toNat ≤ 122 := of_decide_eq_true hrange.2
    omega

/-- What holds of the characters with the first numbers holds of a character with such a number. -/
theorem char_of_toNat_lt {P : Char → Prop} {bound : Nat}
    (h : ∀ n ∈ List.range bound, P (Char.ofNat n)) {c : Char} (hc : c.toNat < bound) : P c := by
  have hsame := h c.toNat (List.mem_range.mpr hc)
  rwa [Char.ofNat_toNat] at hsame

/-- The capital of a letter has the place of the letter. -/
theorem toUpper_of_isAlpha {c : Char} (h : c.isAlpha = true) :
    c.toUpper.isUpper = true ∧ letterValue c.toUpper = letterValue c := by
  have hall : ∀ n ∈ List.range 123, (Char.ofNat n).isAlpha = true →
      (Char.ofNat n).toUpper.isUpper = true ∧
        letterValue (Char.ofNat n).toUpper = letterValue (Char.ofNat n) := by decide +kernel
  exact char_of_toNat_lt (P := fun d => d.isAlpha = true → d.toUpper.isUpper = true ∧
    letterValue d.toUpper = letterValue d) hall (toNat_lt_of_isAlpha h) h

theorem isAlpha_of_toUpper {c : Char} (h : c.toUpper.isAlpha = true) : c.isAlpha = true := by
  unfold Char.toUpper at h
  split at h
  · rename_i hlower
    have hcase : c.isLower = true := (Bool.and_eq_true _ _).mpr
      ⟨decide_eq_true hlower.1, decide_eq_true hlower.2⟩
    show (c.isUpper || c.isLower) = true
    rw [hcase, Bool.or_true]
  · exact h

/-- Letters are letters in any case. -/
theorem isAlpha_of_case {letters letters' : List Char}
    (hcase : letters'.map Char.toUpper = letters.map Char.toUpper)
    (h : ∀ c ∈ letters, c.isAlpha = true) : ∀ c ∈ letters', c.isAlpha = true := by
  intro c hc
  have hmem : c.toUpper ∈ letters.map Char.toUpper := hcase ▸ List.mem_map_of_mem hc
  obtain ⟨d, hd, hupper⟩ := List.mem_map.mp hmem
  refine isAlpha_of_toUpper (hupper ▸ ?_)
  exact isAlpha_of_isUpper (toUpper_of_isAlpha (h d hd)).1

theorem letterValue_injective {c d : Char} (hc : c.isUpper = true) (hd : d.isUpper = true)
    (h : letterValue c = letterValue d) : c = d := by
  have hcrange : 65 ≤ c.toNat ∧ c.toNat ≤ 90 := of_decide_eq_true hc
  have hdrange : 65 ≤ d.toNat ∧ d.toNat ≤ 90 := of_decide_eq_true hd
  unfold letterValue at h
  rw [if_pos hc, if_pos hd] at h
  exact Char.toNat_inj.mp (by omega)

theorem value_map_toUpper {letters : List Char} (h : ∀ c ∈ letters, c.isAlpha = true) :
    value (letters.map Char.toUpper) = value letters := by
  unfold value
  rw [← List.map_reverse, List.map_map]
  congr 1
  refine List.map_congr_left fun c hc => ?_
  exact (toUpper_of_isAlpha (h c (List.mem_reverse.mp hc))).2

/-! ## One numeral for each number -/

/-- Digits are compared from the low end.  None is zero, so the lengths agree as well. -/
theorem eq_of_ofDigits_eq {low other : List Char} (hlow : ∀ c ∈ low, c.isUpper = true)
    (hother : ∀ c ∈ other, c.isUpper = true)
    (h : Nat.ofDigits 26 (low.map letterValue) = Nat.ofDigits 26 (other.map letterValue)) :
    low = other := by
  have hrange : ∀ c : Char, c.isUpper = true → 1 ≤ letterValue c ∧ letterValue c ≤ 26 :=
    fun c hc => letterValue_range (isAlpha_of_isUpper hc)
  induction low generalizing other with
  | nil =>
    cases other with
    | nil => rfl
    | cons d rest =>
      have hd := hrange d (hother d List.mem_cons_self)
      rw [List.map_nil, Nat.ofDigits_nil, List.map_cons, Nat.ofDigits_cons] at h
      omega
  | cons c front ih =>
    have hc := hrange c (hlow c List.mem_cons_self)
    cases other with
    | nil =>
      rw [List.map_nil, Nat.ofDigits_nil, List.map_cons, Nat.ofDigits_cons] at h
      omega
    | cons d rest =>
      have hd := hrange d (hother d List.mem_cons_self)
      rw [List.map_cons, Nat.ofDigits_cons, List.map_cons, Nat.ofDigits_cons] at h
      have hfirst : letterValue c = letterValue d := by omega
      have hrest := ih (fun e he => hlow e (List.mem_cons_of_mem c he))
        (fun e he => hother e (List.mem_cons_of_mem d he)) (by omega)
      rw [hrest, letterValue_injective (hlow c List.mem_cons_self)
        (hother d List.mem_cons_self) hfirst]

theorem value_injective {letters other : List Char} (hletters : ∀ c ∈ letters, c.isUpper = true)
    (hother : ∀ c ∈ other, c.isUpper = true) (h : value letters = value other) :
    letters = other := by
  have hreverse : letters.reverse = other.reverse :=
    eq_of_ofDigits_eq (fun c hc => hletters c (List.mem_reverse.mp hc))
      (fun c hc => hother c (List.mem_reverse.mp hc)) h
  exact List.reverse_inj.mp hreverse

theorem eq_nil_iff_value_eq_zero {letters : List Char}
    (h : ∀ c ∈ letters, c.isUpper = true) : letters = [] ↔ value letters = 0 := by
  constructor
  · intro hnil
    rw [hnil, value_nil]
  · intro hzero
    exact value_injective h (fun c hc => (by cases hc)) hzero

/-! ## Reading -/

theorem base_eq : base = ofNat 26 := rfl

theorem le_bitBound_of_le {d : Nat} (h : d ≤ 26) : d ≤ bitBound := by
  have hsmall : 26 ≤ bitBound := by decide
  omega

/-- One letter more keeps the double on the track of the exact number. -/
theorem tracks_concat {total : Binary64} {front : List Char} {c : Char}
    (h : Tracks total (value front)) (hc : c.isAlpha = true) :
    Tracks (total * base + .ofNat (letterValue c)) (value (front ++ [c])) := by
  rw [value_concat, base_eq]
  have hrange := letterValue_range hc
  exact (h.mul (by omega) (le_bitBound_of_le (Nat.le_refl 26))).add (le_bitBound_of_le hrange.2)

theorem readFrom_tracks (label : String) {total : Binary64} {front letters : List Char}
    (h : Tracks total (value front)) (hletters : ∀ c ∈ letters, c.isAlpha = true) :
    ∃ x, readFrom label total letters = .ok x ∧ Tracks x (value (front ++ letters)) := by
  -- The letters that have been read are part of the statement, since the total stands for them.
  induction letters generalizing total front with
  | nil =>
    rw [List.append_nil]
    exact ⟨total, rfl, h⟩
  | cons c rest ih =>
    have hc := hletters c List.mem_cons_self
    obtain ⟨x, hread, hx⟩ := ih (tracks_concat h hc)
      (fun d hd => hletters d (List.mem_cons_of_mem c hd))
    refine ⟨x, ?_, ?_⟩
    · rw [readFrom, if_pos hc]
      exact hread
    · rw [List.append_assoc, List.singleton_append] at hx
      exact hx

/-- The number that letters add up to, whether they are capitals or not. -/
theorem readFrom_of_isAlpha (label : String) (total : Binary64) {letters : List Char}
    (h : ∀ c ∈ letters, c.isAlpha = true) : readFrom label total letters =
      .ok ((letters.map Char.toUpper).foldl (fun x c => x * base + .ofNat (letterValue c)) total) := by
  induction letters generalizing total with
  | nil => rfl
  | cons c rest ih =>
    have hc := h c List.mem_cons_self
    rw [readFrom, if_pos hc, ih _ fun d hd => h d (List.mem_cons_of_mem c hd), List.map_cons,
      List.foldl_cons, (toUpper_of_isAlpha hc).2]

theorem toIndex_of_ne_nil {label : String} (h : label.toList ≠ []) (requireNonEmpty : Bool) :
    toIndex label requireNonEmpty = readFrom label 0 label.toList := by
  rw [toIndex, if_neg fun hempty => h hempty.2]

/-- The case of the letters does not change the number of a label. -/
theorem toIndex_congr {label label' : String} (h : ∀ c ∈ label.toList, c.isAlpha = true)
    (hcase : label'.toList.map Char.toUpper = label.toList.map Char.toUpper)
    (requireNonEmpty : Bool) : toIndex label' requireNonEmpty = toIndex label requireNonEmpty := by
  have hempty : label'.toList = [] ↔ label.toList = [] := by
    rw [← List.map_eq_nil_iff, hcase, List.map_eq_nil_iff]
  by_cases hnil : label.toList = []
  · rw [String.toList_eq_nil_iff.mp hnil, String.toList_eq_nil_iff.mp (hempty.mpr hnil)]
  · rw [toIndex_of_ne_nil hnil, toIndex_of_ne_nil (mt hempty.mp hnil), readFrom_of_isAlpha _ _ h,
      readFrom_of_isAlpha _ _ (isAlpha_of_case hcase h), hcase]

theorem toIndex_tracks (label : String) (requireNonEmpty : Bool)
    (hletters : ∀ c ∈ label.toList, c.isAlpha = true)
    (hne : requireNonEmpty = true → label.toList ≠ []) :
    ∃ x, toIndex label requireNonEmpty = .ok x ∧ Tracks x (value label.toList) := by
  have hstart : Tracks 0 (value []) := tracks_ofNat 0
  obtain ⟨x, hread, hx⟩ := readFrom_tracks label hstart hletters
  refine ⟨x, ?_, hx⟩
  unfold toIndex
  rw [if_neg (fun h => hne h.1 h.2)]
  exact hread

theorem toIndex_eq_ofNat (label : String) (hletters : ∀ c ∈ label.toList, c.isAlpha = true)
    (hsafe : value label.toList ≤ maxSafe) :
    toIndex label false = .ok (.ofNat (value label.toList)) := by
  obtain ⟨x, hread, hx⟩ := toIndex_tracks label false hletters (by simp)
  rw [hread, hx.exact hsafe]

/-! ## Writing -/

/-- A step takes off the last digit, exactly. -/
theorem writeBefore_succ {m steps : Nat} (hm : m + 1 ≤ maxSafe) (label : List Char) :
    writeBefore label (steps + 1) (.ofNat (m + 1)) =
      writeBefore (letter (m % 26) :: label) steps (.ofNat (m / 26)) := by
  have hbound : m + 1 ≤ bitBound := le_bitBound_of_le_maxSafe hm
  have hbase : 26 ≤ bitBound := le_bitBound_of_le (Nat.le_refl 26)
  have hplace : (ofNat m % ofNat 26).toNat? = some (m % 26) := by
    rw [mod_ofNat (by omega) hbase (by omega)]
    exact toNat?_ofNat (le_bitBound_of_le (Nat.le_of_lt (Nat.mod_lt m (by omega))))
  rw [writeBefore, lt_zero_ofNat hbound, if_pos (by simp), ofNat_succ_sub_one hbound, base_eq,
    hplace, floor_div_ofNat (by omega) hbase (by omega)]
  rfl

/-- Nothing is written of a number that is not above zero. -/
theorem writeBefore_eq_self {remaining : Binary64} (h : Binary64.lt 0 remaining = false)
    (label : List Char) (steps : Nat) : writeBefore label steps remaining = label := by
  cases steps with
  | zero => rfl
  | succ steps =>
    rw [writeBefore, h]
    rfl

theorem writeBefore_zero (label : List Char) (steps : Nat) :
    writeBefore label steps (.ofNat 0) = label :=
  writeBefore_eq_self (lt_zero_ofNat (Nat.zero_le bitBound)) label steps

/-- The letters that are written spell the number, if there are enough steps for its digits. -/
theorem writeBefore_ofNat {n steps : Nat} (hn : n ≤ maxSafe) (hsteps : n < 2 ^ steps)
    (label : List Char) :
    ∃ letters, writeBefore label steps (.ofNat n) = letters ++ label ∧
      (∀ c ∈ letters, c.isUpper = true) ∧ value letters = n := by
  -- A step leaves less than half of the number, so it uses up one binary place of the bound.
  induction steps generalizing n label with
  | zero =>
    have hzero : n = 0 := by omega
    rw [hzero]
    exact ⟨[], writeBefore_zero label 0, fun c hc => (by cases hc), value_nil⟩
  | succ steps ih =>
    cases n with
    | zero => exact ⟨[], writeBefore_zero label _, fun c hc => (by cases hc), value_nil⟩
    | succ m =>
      have hless : m / 26 < 2 ^ steps := by
        rw [Nat.pow_succ] at hsteps
        omega
      obtain ⟨front, hwrite, hupper, hvalue⟩ :=
        ih (n := m / 26) (by omega) hless (letter (m % 26) :: label)
      have hdigit : m % 26 < 26 := Nat.mod_lt m (by omega)
      refine ⟨front ++ [letter (m % 26)], ?_, ?_, ?_⟩
      · rw [writeBefore_succ hn, hwrite, List.append_assoc, List.singleton_append]
      · intro c hc
        rcases List.mem_append.mp hc with hfront | hlast
        · exact hupper c hfront
        · rw [List.mem_singleton.mp hlast]
          exact isUpper_letter hdigit
      · rw [value_concat, hvalue, letterValue_letter hdigit]
        omega

theorem steps_eq {x : Binary64} {n : Nat} (h : x.toNat? = some n) : steps x = n.log2 + 1 := by
  unfold steps
  rw [h]

/-- The letters of a safe number are capitals that spell it. -/
theorem letters_spec {x : Binary64} {n : Nat} (h : x.toNat? = some n) (hn : n ≤ maxSafe) :
    (∀ c ∈ letters x, c.isUpper = true) ∧ value (letters x) = n := by
  unfold letters
  rw [steps_eq h]
  rcases eq_of_toNat?_eq_some h (le_bitBound_of_le_maxSafe hn) with hx | ⟨hzero, hx⟩
  · obtain ⟨written, hwrite, hupper, hvalue⟩ := writeBefore_ofNat hn Nat.lt_log2_self []
    rw [hx, hwrite, List.append_nil]
    exact ⟨hupper, hvalue⟩
  · rw [hx, writeBefore_eq_self (lt_zero_zero true), hzero]
    exact ⟨fun c hc => (by cases hc), value_nil⟩

theorem ofIndex_eq_ok {x : Binary64} {n : Nat} (h : x.toNat? = some n) :
    ofIndex x = .ok (String.ofList (letters x)) := by
  unfold ofIndex
  rw [if_pos ⟨isInteger_of_toNat? h, by simp [not_lt_zero_of_toNat? h]⟩]

/-! ## Reading and writing undo each other -/

/-- Each safe number has a label of capitals that reads back as the number, and each label of a
safe number is, in capitals, what is written for it. -/
theorem ofIndex_toIndex_inverse :
    (∀ (x : Binary64) (n : Nat), x.toNat? = some n → n ≤ maxSafe →
      ∃ label, ofIndex x = .ok label ∧ (∀ c ∈ label.toList, c.isUpper = true) ∧
        (label = "" ↔ n = 0) ∧ toIndex label false = .ok (.ofNat n)) ∧
    ∀ s : String, (∀ c ∈ s.toList, c.isAlpha = true) → value s.toList ≤ maxSafe →
      toIndex s false = .ok (.ofNat (value s.toList)) ∧
        ofIndex (.ofNat (value s.toList)) = .ok s.toUpper := by
  constructor
  · intro x n hx hn
    obtain ⟨hupper, hvalue⟩ := letters_spec hx hn
    refine ⟨String.ofList (letters x), ofIndex_eq_ok hx, ?_, ?_, ?_⟩
    · rwa [String.toList_ofList]
    · rw [← String.toList_inj, String.toList_ofList, ← hvalue]
      exact eq_nil_iff_value_eq_zero hupper
    · have hread := toIndex_eq_ofNat (String.ofList (letters x))
      rw [String.toList_ofList, hvalue] at hread
      exact hread (fun c hc => isAlpha_of_isUpper (hupper c hc)) hn
  · intro s hs hsafe
    refine ⟨toIndex_eq_ofNat s hs hsafe, ?_⟩
    have hx : (ofNat (value s.toList)).toNat? = some (value s.toList) :=
      toNat?_ofNat (le_bitBound_of_le_maxSafe hsafe)
    obtain ⟨hupper, hvalue⟩ := letters_spec hx hsafe
    have hcapitals : ∀ c ∈ s.toList.map Char.toUpper, c.isUpper = true := by
      intro c hc
      obtain ⟨d, hd, rfl⟩ := List.mem_map.mp hc
      exact (toUpper_of_isAlpha (hs d hd)).1
    -- Both lists of capitals spell the number, and it has only one numeral.
    have hletters : letters (.ofNat (value s.toList)) = s.toList.map Char.toUpper :=
      value_injective hupper hcapitals (hvalue.trans (value_map_toUpper hs).symm)
    rw [ofIndex_eq_ok hx, hletters, ← String.toList_map, String.ofList_toList]
    rfl

/-- The label of the last safe number. -/
example : ofIndex (.ofNat maxSafe) = .ok "BKTXHSOGHKKE" := by decide +kernel

end ColumnLabel
end Worksheet
