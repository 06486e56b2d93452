/-
Column labels, letter by letter.

Reading checks the letters and adds them up in one pass.  It stops at the first character that is
no letter, which the fault names (`readFrom_of_firstOther`), and it goes through exactly if there is
none (`exists_toIndex_eq_ok_iff`).  The number is positional: letters in front of others are worth
their number times a power of the base.  That holds on doubles as well (`ofNat_value_append`),
because a safe label is too short for a power of the base to be rounded.
-/
import Worksheet.Proofs.Label.Order

namespace Worksheet
namespace ColumnLabel

open Binary64

/-! ## The first character that is no letter -/

/-- The first character of a text that is no letter. -/
def FirstOther (text : List Char) (c : Char) : Prop :=
  ∃ front back, text = front ++ c :: back ∧ (∀ d ∈ front, d.isAlpha = true) ∧ ¬ c.isAlpha = true

theorem exists_firstOther {text : List Char} (h : ∃ c ∈ text, ¬ c.isAlpha = true) :
    ∃ c, FirstOther text c := by
  obtain ⟨d, hd, hother⟩ := h
  have hfound : (text.find? fun c => !c.isAlpha).isSome = true :=
    List.find?_isSome.mpr ⟨d, hd, by simpa using hother⟩
  obtain ⟨c, hc⟩ := Option.isSome_iff_exists.mp hfound
  obtain ⟨hc, front, back, htext, hfront⟩ := List.find?_eq_some_iff_append.mp hc
  exact ⟨c, front, back, htext, fun e he => by simpa using hfront e he, by simpa using hc⟩

theorem FirstOther.ne_nil {text : List Char} {c : Char} (h : FirstOther text c) : text ≠ [] := by
  obtain ⟨front, back, rfl, -, -⟩ := h
  exact List.append_ne_nil_of_right_ne_nil front (List.cons_ne_nil c back)

/-! ## Refusing -/

variable {label : String} {requireNonEmpty : Bool} {c : Char}

theorem readFrom_of_firstOther (label : String) (total : Binary64) {text : List Char}
    (h : FirstOther text c) :
    readFrom label total text = .error (.invalidLabel label (some (String.singleton c))) := by
  obtain ⟨front, back, rfl, hfront, hc⟩ := h
  induction front generalizing total with
  | nil => rw [List.nil_append, readFrom, if_neg hc]
  | cons d front ih =>
    obtain ⟨hd, hfront⟩ := List.forall_mem_cons.mp hfront
    rw [List.cons_append, readFrom, if_pos hd]
    exact ih _ hfront

theorem toIndex_of_firstOther (requireNonEmpty : Bool) (h : FirstOther label.toList c) :
    toIndex label requireNonEmpty = .error (.invalidLabel label (some (String.singleton c))) := by
  rw [toIndex_of_ne_nil h.ne_nil]
  exact readFrom_of_firstOther label 0 h

theorem toIndex_empty : toIndex "" true = .error (.invalidLabel "" none) := rfl

/-- A label is read exactly if there are only letters in it, and one at least where that is
required. -/
theorem exists_toIndex_eq_ok_iff : (∃ x, toIndex label requireNonEmpty = .ok x) ↔
    (∀ c ∈ label.toList, c.isAlpha = true) ∧ (requireNonEmpty = true → label ≠ "") := by
  constructor
  · rintro ⟨x, hx⟩
    constructor
    · by_contra hnot
      push Not at hnot
      obtain ⟨c, hc⟩ := exists_firstOther hnot
      rw [toIndex_of_firstOther requireNonEmpty hc] at hx
      cases hx
    · rintro rfl rfl
      rw [toIndex_empty] at hx
      cases hx
  · rintro ⟨hletters, hne⟩
    obtain ⟨x, hx, -⟩ := toIndex_tracks label requireNonEmpty hletters fun hrequired hnil =>
      hne hrequired (String.toList_eq_nil_iff.mp hnil)
    exact ⟨x, hx⟩

theorem exists_toIndex_eq_error_iff : (∃ fault, toIndex label requireNonEmpty = .error fault) ↔
    (∃ c ∈ label.toList, ¬ c.isAlpha = true) ∨ requireNonEmpty = true ∧ label = "" := by
  constructor
  · rintro ⟨fault, hfault⟩
    by_contra hnot
    push Not at hnot
    obtain ⟨x, hx⟩ := exists_toIndex_eq_ok_iff.mpr hnot
    rw [hx] at hfault
    cases hfault
  · rintro (hother | ⟨rfl, rfl⟩)
    · obtain ⟨c, hc⟩ := exists_firstOther hother
      exact ⟨_, toIndex_of_firstOther requireNonEmpty hc⟩
    · exact ⟨_, toIndex_empty⟩

/-- A label is refused for being empty, or for the first character of it that is no letter. -/
theorem toIndex_eq_error {fault : Fault} (h : toIndex label requireNonEmpty = .error fault) :
    (requireNonEmpty = true ∧ label = "" ∧ fault = .invalidLabel label none) ∨
      ∃ c, FirstOther label.toList c ∧
        fault = .invalidLabel label (some (String.singleton c)) := by
  rcases exists_toIndex_eq_error_iff.mp ⟨fault, h⟩ with hother | ⟨rfl, rfl⟩
  · obtain ⟨c, hc⟩ := exists_firstOther hother
    rw [toIndex_of_firstOther requireNonEmpty hc] at h
    exact .inr ⟨c, hc, (Except.error.inj h).symm⟩
  · rw [toIndex_empty] at h
    exact .inl ⟨rfl, rfl, (Except.error.inj h).symm⟩

/-! ## Places -/

theorem value_toList_append (a b : String) :
    value (a ++ b).toList = value a.toList * 26 ^ b.length + value b.toList := by
  rw [String.toList_append, value_append, String.length_toList]

/-- The parts of a label are worth at most as much as the label. -/
theorem value_le_of_append {a b : String} {n : Nat} (h : value (a ++ b).toList ≤ n) :
    value a.toList ≤ n ∧ value b.toList ≤ n := by
  have hgrow : value a.toList ≤ value a.toList * 26 ^ b.length :=
    Nat.le_mul_of_pos_right _ (Nat.pow_pos (by decide))
  rw [value_toList_append] at h
  omega

theorem length_le_of_value_le {s : List Char} (h : ∀ c ∈ s, c.isAlpha = true)
    (hsafe : value s ≤ maxSafe) : s.length ≤ 12 := by
  by_contra hlong
  have hleast := (value_bounds h).1
  have hpower : 26 ^ 13 ≤ 26 ^ s.length := Nat.pow_le_pow_right (by decide) (by omega)
  have hmax : maxSafe = 9007199254740991 := by decide
  omega

/-- Only the odd factors of a power of the base need bits of their own. -/
theorem fits_base_pow {k : Nat} (h : k ≤ 14) : Fits (26 ^ k * one) := by
  have hodd : 13 ^ k ≤ bitBound :=
    Nat.le_trans (Nat.pow_le_pow_right (by decide) h) (by decide)
  have hsplit : 26 ^ k = 13 ^ k * powTwo k := Nat.mul_pow 13 2 k
  rw [hsplit, Nat.mul_assoc, one, ← powTwo_add]
  exact fits_mul_powTwo hodd (by omega)

/-- The double of a safe sum by places is put together from the doubles of its parts. -/
theorem ofNat_places {m n k : Nat} (hk : k ≤ 14) (hm : m ≤ bitBound) (hn : n ≤ bitBound)
    (hmk : m * 26 ^ k ≤ bitBound) :
    ofNat m * ofNat (26 ^ k) + ofNat n = ofNat (m * 26 ^ k + n) := by
  rw [mul_ofNat (fits_mul_one hm) (fits_base_pow hk) (fits_mul_one hmk), add_ofNat hmk hn]

theorem ofNat_value_append {a b : String} (hb : ∀ c ∈ b.toList, c.isAlpha = true)
    (hsafe : value (a ++ b).toList ≤ maxSafe) : ofNat (value (a ++ b).toList) =
      ofNat (value a.toList) * ofNat (26 ^ b.length) + ofNat (value b.toList) := by
  obtain ⟨hfront, hback⟩ := value_le_of_append hsafe
  have hlength := length_le_of_value_le hb hback
  rw [String.length_toList] at hlength
  have hbound := le_bitBound_of_le_maxSafe hsafe
  rw [value_toList_append] at hbound ⊢
  exact (ofNat_places (by omega) (le_bitBound_of_le_maxSafe hfront) (by omega) (by omega)).symm

/-! ## Both -/

/-- A label is refused exactly if some character of it is no letter, or if it is empty and must not
be, and what is reported is the first such character.  The numbers of two labels add up by their
places to the number of both together, as long as that is safe, and capitals count like the other
letters. -/
theorem toIndex_exact :
    (∀ (label : String) (requireNonEmpty : Bool),
      ((∃ fault, toIndex label requireNonEmpty = .error fault) ↔
        (∃ c ∈ label.toList, ¬ c.isAlpha = true) ∨ requireNonEmpty = true ∧ label = "") ∧
      ∀ fault, toIndex label requireNonEmpty = .error fault →
        (requireNonEmpty = true ∧ label = "" ∧ fault = .invalidLabel label none) ∨
        ∃ c, FirstOther label.toList c ∧
          fault = .invalidLabel label (some (String.singleton c)) ∧
          fault.message = "Invalid character \"" ++ String.singleton c ++
            "\" in column label \"" ++ label ++ "\". Only letters A-Z are allowed") ∧
    (∀ a b : String, (∀ c ∈ a.toList, c.isAlpha = true) → (∀ c ∈ b.toList, c.isAlpha = true) →
      value (a ++ b).toList ≤ maxSafe →
        ∃ x y z m n, toIndex a false = .ok x ∧ toIndex b false = .ok y ∧
          toIndex (a ++ b) false = .ok z ∧ z = x * .ofNat (26 ^ b.length) + y ∧
          x.toNat? = some m ∧ y.toNat? = some n ∧ z.toNat? = some (m * 26 ^ b.length + n)) ∧
    ∀ (s t : String) (requireNonEmpty : Bool), (∀ c ∈ s.toList, c.isAlpha = true) →
      t.toUpper = s.toUpper → toIndex t requireNonEmpty = toIndex s requireNonEmpty := by
  refine ⟨fun label _ => ⟨exists_toIndex_eq_error_iff, fun fault hfault => ?_⟩, ?_, ?_⟩
  · rcases toIndex_eq_error hfault with hempty | ⟨c, hc, rfl⟩
    · exact .inl hempty
    · exact .inr ⟨c, hc, rfl, rfl⟩
  · intro a b ha hb hsafe
    obtain ⟨hfront, hback⟩ := value_le_of_append hsafe
    have hletters : ∀ c ∈ (a ++ b).toList, c.isAlpha = true := by
      rw [String.toList_append]
      exact List.forall_mem_append.mpr ⟨ha, hb⟩
    refine ⟨_, _, _, _, _, toIndex_eq_ofNat a ha hfront, toIndex_eq_ofNat b hb hback,
      toIndex_eq_ofNat (a ++ b) hletters hsafe, ofNat_value_append hb hsafe,
      toNat?_ofNat_of_safe hfront, toNat?_ofNat_of_safe hback, ?_⟩
    rw [toNat?_ofNat_of_safe hsafe, value_toList_append]
  · intro s t requireNonEmpty hs hcase
    refine toIndex_congr hs ?_ requireNonEmpty
    rw [toUpper_eq_ofList, toUpper_eq_ofList] at hcase
    exact String.ofList_inj.mp hcase

/-- A character outside the basic plane is reported whole, an empty label is refused where a letter
is required, and `zZaB` is read by places, in any case. -/
theorem toIndex_exact_mixed :
    let bad := "zA😀1b"
    let fault := Fault.invalidLabel bad (some (String.singleton '😀'))
    let a := "zZ"
    let b := "aB"
    (toIndex bad false = .error fault ∧ ∃ c, FirstOther bad.toList c ∧
      fault = .invalidLabel bad (some (String.singleton c)) ∧
      fault.message = "Invalid character \"" ++ String.singleton c ++
        "\" in column label \"" ++ bad ++ "\". Only letters A-Z are allowed") ∧
    (∃ fault, toIndex "" true = .error fault) ∧
    ((∀ c ∈ a.toList, c.isAlpha = true) ∧ (∀ c ∈ b.toList, c.isAlpha = true) ∧
      value (a ++ b).toList ≤ maxSafe ∧
      ∃ x y z m n, toIndex a false = .ok x ∧ toIndex b false = .ok y ∧
        toIndex (a ++ b) false = .ok z ∧ z = x * .ofNat (26 ^ b.length) + y ∧
        x.toNat? = some m ∧ y.toNat? = some n ∧ z.toNat? = some (m * 26 ^ b.length + n)) ∧
    "Zz".toUpper = a.toUpper ∧ toIndex "Zz" false = toIndex a false := by
  intro bad fault a b
  have hfirst : FirstOther bad.toList '😀' :=
    ⟨['z', 'A'], ['1', 'b'], by decide, List.all_eq_true.mp (by decide), by decide⟩
  have hfault : toIndex bad false = .error fault := toIndex_of_firstOther false hfirst
  have ha : ∀ c ∈ a.toList, c.isAlpha = true := List.all_eq_true.mp (by decide)
  have hb : ∀ c ∈ b.toList, c.isAlpha = true := List.all_eq_true.mp (by decide)
  have hsafe : value (a ++ b).toList ≤ maxSafe := by decide
  have hcase : "Zz".toUpper = a.toUpper := by
    rw [toUpper_eq_ofList, toUpper_eq_ofList]
    exact congrArg String.ofList (by decide)
  refine ⟨⟨hfault, ?_⟩, (toIndex_exact.1 "" true).1.mpr (.inr ⟨rfl, rfl⟩), ?_, hcase, ?_⟩
  · exact ((toIndex_exact.1 bad false).2 fault hfault).resolve_left fun h => absurd h.1 (by decide)
  · exact ⟨ha, hb, hsafe, toIndex_exact.2.1 a b ha hb hsafe⟩
  · exact toIndex_exact.2.2 a "Zz" false ha hcase

end ColumnLabel
end Worksheet
