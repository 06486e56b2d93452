/-
The order of columns is the order of their labels.

Of two labels the shorter one comes first, and labels of one length come as in a dictionary.  There
is no zero digit, so the numerals of one length fill the gap between those that are shorter and
those that are longer (`value_bounds`): the length decides first.  Within one length the first
letter that differs decides, because whatever comes behind it is worth less than one step of that
letter (`value_lt_add_pow`).
-/
import Worksheet.Proofs.Label.Column
import Mathlib.Data.List.Induction
import Mathlib.Data.String.Basic

namespace Worksheet
namespace ColumnLabel

open Binary64

/-- The order of labels as they are written. -/
def Before (s t : String) : Prop := s.length < t.length ∨ s.length = t.length ∧ s < t

instance (s t : String) : Decidable (Before s t) := inferInstanceAs (Decidable (_ ∨ _))

variable {s t : List Char}

/-! ## Labels of different lengths -/

/-- With `n` letters the least number is `(26 ^ n - 1) / 25`, and the greatest is one less than the
least with one letter more. -/
theorem value_bounds (h : ∀ c ∈ s, c.isAlpha = true) :
    26 ^ s.length ≤ 25 * value s + 1 ∧ 25 * value s + 26 ≤ 26 ^ (s.length + 1) := by
  induction s using List.reverseRecOn with
  | nil => exact ⟨Nat.le_refl 1, Nat.le_refl 26⟩
  | append_singleton front c ih =>
    obtain ⟨hfront, hlast⟩ := List.forall_mem_append.mp h
    obtain ⟨hleast, hgreatest⟩ := ih hfront
    have hrange := letterValue_range (hlast c (List.mem_singleton_self c))
    rw [value_concat, List.length_append, List.length_singleton]
    rw [Nat.pow_succ] at hgreatest ⊢
    rw [Nat.pow_succ]
    omega

theorem value_lt_of_length_lt (hs : ∀ c ∈ s, c.isAlpha = true) (ht : ∀ c ∈ t, c.isAlpha = true)
    (hless : s.length < t.length) : value s < value t := by
  have hgreatest := (value_bounds hs).2
  have hleast := (value_bounds ht).1
  have hpower : 26 ^ (s.length + 1) ≤ 26 ^ t.length := Nat.pow_le_pow_right (by decide) hless
  omega

/-! ## Labels of one length -/

theorem value_cons (c : Char) (s : List Char) :
    value (c :: s) = letterValue c * 26 ^ s.length + value s := by
  have hfirst : value [c] = letterValue c := (value_concat [] c).trans (Nat.zero_add _)
  rw [← hfirst, ← value_append, List.singleton_append]

/-- Labels of one length differ by less than one step of a letter in front of them. -/
theorem value_lt_add_pow (hs : ∀ c ∈ s, c.isAlpha = true) (ht : ∀ c ∈ t, c.isAlpha = true)
    (hlength : s.length = t.length) : value s < value t + 26 ^ s.length := by
  have hgreatest := (value_bounds hs).2
  have hleast := (value_bounds ht).1
  rw [← hlength] at hleast
  rw [Nat.pow_succ] at hgreatest
  omega

theorem letterValue_lt {c d : Char} (hc : c.isUpper = true) (hd : d.isUpper = true) (h : c < d) :
    letterValue c < letterValue d := by
  have hcrange : 65 ≤ c.toNat ∧ c.toNat ≤ 90 := of_decide_eq_true hc
  have hless : c.toNat < d.toNat := h
  unfold letterValue
  rw [if_pos hc, if_pos hd]
  omega

/-- The first letter decides if it differs. -/
theorem value_cons_lt_value_cons {c d : Char} (hs : ∀ e ∈ c :: s, e.isUpper = true)
    (ht : ∀ e ∈ d :: t, e.isUpper = true) (hlength : s.length = t.length) (hless : c < d) :
    value (c :: s) < value (d :: t) := by
  obtain ⟨hc, hs⟩ := List.forall_mem_cons.mp hs
  obtain ⟨hd, ht⟩ := List.forall_mem_cons.mp ht
  have hrest : value s < value t + 26 ^ s.length :=
    value_lt_add_pow (fun e he => isAlpha_of_isUpper (hs e he))
      (fun e he => isAlpha_of_isUpper (ht e he)) hlength
  have hstep : (letterValue c + 1) * 26 ^ s.length ≤ letterValue d * 26 ^ s.length :=
    Nat.mul_le_mul_right _ (letterValue_lt hc hd hless)
  rw [value_cons, value_cons, ← hlength]
  rw [Nat.succ_mul] at hstep
  omega

theorem value_lt_iff_of_length_eq (hs : ∀ c ∈ s, c.isUpper = true)
    (ht : ∀ c ∈ t, c.isUpper = true) (hlength : s.length = t.length) :
    value s < value t ↔ s < t := by
  induction s generalizing t with
  | nil =>
    rw [List.eq_nil_of_length_eq_zero hlength.symm]
    exact iff_of_false (Nat.lt_irrefl _) (List.lt_irrefl [])
  | cons c s ih =>
    cases t with
    | nil => exact absurd hlength (Nat.succ_ne_zero _)
    | cons d t =>
      have hrest : s.length = t.length := Nat.succ.inj hlength
      rw [List.cons_lt_cons_iff]
      rcases lt_trichotomy c d with hless | rfl | hgreater
      · exact iff_of_true (value_cons_lt_value_cons hs ht hrest hless) (.inl hless)
      · have hsame := ih (List.forall_mem_cons.mp hs).2 (List.forall_mem_cons.mp ht).2 hrest
        rw [value_cons, value_cons, hrest, Nat.add_lt_add_iff_left, hsame]
        exact ⟨fun h => .inr ⟨rfl, h⟩, fun h => (h.resolve_left (lt_irrefl c)).2⟩
      · refine iff_of_false ?_ ?_
        · exact Nat.lt_asymm (value_cons_lt_value_cons ht hs hrest.symm hgreater)
        · rintro (hless | ⟨rfl, -⟩)
          · exact lt_asymm hgreater hless
          · exact lt_irrefl c hgreater

/-! ## The order of labels -/

theorem value_lt_iff_before (hs : ∀ c ∈ s, c.isUpper = true) (ht : ∀ c ∈ t, c.isUpper = true) :
    value s < value t ↔ Before (String.ofList s) (String.ofList t) := by
  have halpha : ∀ {letters : List Char}, (∀ c ∈ letters, c.isUpper = true) →
      ∀ c ∈ letters, c.isAlpha = true := fun h c hc => isAlpha_of_isUpper (h c hc)
  rw [Before, String.length_ofList, String.length_ofList, String.lt_iff_toList_lt,
    String.toList_ofList, String.toList_ofList]
  rcases Nat.lt_trichotomy s.length t.length with hless | hlength | hgreater
  · exact iff_of_true (value_lt_of_length_lt (halpha hs) (halpha ht) hless) (.inl hless)
  · rw [value_lt_iff_of_length_eq hs ht hlength]
    exact ⟨fun h => .inr ⟨hlength, h⟩, fun h => (h.resolve_left (Nat.ne_of_lt · hlength)).2⟩
  · refine iff_of_false ?_ ?_
    · exact Nat.lt_asymm (value_lt_of_length_lt (halpha ht) (halpha hs) hgreater)
    · rintro (hless | ⟨hlength, -⟩) <;> omega

theorem toUpper_eq_ofList (s : String) : s.toUpper = String.ofList (s.toList.map Char.toUpper) := by
  rw [← String.toList_map, String.ofList_toList]
  rfl

theorem isUpper_of_mem_map_toUpper (hs : ∀ c ∈ s, c.isAlpha = true) :
    ∀ c ∈ s.map Char.toUpper, c.isUpper = true :=
  List.forall_mem_map.mpr fun c hc => (toUpper_of_isAlpha (hs c hc)).1

/-- The labels of safe numbers come in the order of the numbers, and what is read of the labels of
safe numbers is in the order of the labels, in capitals. -/
theorem lt_iff_before :
    (∀ m n : Nat, m ≤ maxSafe → n ≤ maxSafe →
      ∃ s t, ofIndex (.ofNat m) = .ok s ∧ ofIndex (.ofNat n) = .ok t ∧ (m < n ↔ Before s t)) ∧
    ∀ s t : String, (∀ c ∈ s.toList, c.isAlpha = true) → (∀ c ∈ t.toList, c.isAlpha = true) →
      value s.toList ≤ maxSafe → value t.toList ≤ maxSafe →
        ∃ x y, toIndex s false = .ok x ∧ toIndex t false = .ok y ∧
          (Binary64.lt x y = true ↔ Before s.toUpper t.toUpper) := by
  constructor
  · intro m n hm hn
    have hx := toNat?_ofNat_of_safe hm
    have hy := toNat?_ofNat_of_safe hn
    obtain ⟨hupper, hvalue⟩ := letters_spec hx hm
    obtain ⟨hupper', hvalue'⟩ := letters_spec hy hn
    have horder := value_lt_iff_before hupper hupper'
    rw [hvalue, hvalue'] at horder
    exact ⟨_, _, ofIndex_eq_ok hx, ofIndex_eq_ok hy, horder⟩
  · intro s t hs ht hsafe hsafe'
    refine ⟨_, _, toIndex_eq_ofNat s hs hsafe, toIndex_eq_ofNat t ht hsafe', ?_⟩
    rw [lt_ofNat (le_bitBound_of_le_maxSafe hsafe) (le_bitBound_of_le_maxSafe hsafe'),
      decide_eq_true_iff, ← value_map_toUpper hs, ← value_map_toUpper ht, toUpper_eq_ofList,
      toUpper_eq_ofList]
    exact value_lt_iff_before (isUpper_of_mem_map_toUpper hs) (isUpper_of_mem_map_toUpper ht)

/-- The places where a letter is added: after Z comes AA, and after ZZ, in any case, AAA. -/
theorem lt_iff_before_carry :
    let s := "zZ"
    let t := "aaa"
    (26 ≤ maxSafe ∧ 27 ≤ maxSafe ∧
      ∃ last first, ofIndex (.ofNat 26) = .ok last ∧ ofIndex (.ofNat 27) = .ok first ∧
        Before last first) ∧
    (∀ c ∈ s.toList, c.isAlpha = true) ∧ (∀ c ∈ t.toList, c.isAlpha = true) ∧
    value s.toList ≤ maxSafe ∧ value t.toList ≤ maxSafe ∧
    ∃ x y, toIndex s false = .ok x ∧ toIndex t false = .ok y ∧ Binary64.lt x y = true := by
  intro s t
  have hm : 26 ≤ maxSafe := by decide
  have hn : 27 ≤ maxSafe := by decide
  have hs : ∀ c ∈ s.toList, c.isAlpha = true := List.all_eq_true.mp (by decide)
  have ht : ∀ c ∈ t.toList, c.isAlpha = true := List.all_eq_true.mp (by decide)
  have hsafe : value s.toList ≤ maxSafe := by decide
  have hsafe' : value t.toList ≤ maxSafe := by decide
  have hbefore : Before s.toUpper t.toUpper := by decide +kernel
  obtain ⟨last, first, hlast, hfirst, horder⟩ := lt_iff_before.1 26 27 hm hn
  obtain ⟨x, y, hx, hy, hless⟩ := lt_iff_before.2 s t hs ht hsafe hsafe'
  exact ⟨⟨hm, hn, last, first, hlast, hfirst, horder.mp (by decide)⟩, hs, ht, hsafe, hsafe', x, y,
    hx, hy, hless.mpr hbefore⟩

end ColumnLabel
end Worksheet
