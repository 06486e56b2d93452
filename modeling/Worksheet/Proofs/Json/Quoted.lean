/-
Quoted texts are read back.

Each character is escaped by itself and read back by itself (`readNumbers_escape`), so a quoted
text of any characters is read as that text (`readQuoted_escape`).  A character is never half of
one, so no two of them are put together when they are spelled.
-/
import Worksheet.Json.Parser
import Worksheet.Json.Printer

namespace Worksheet
namespace Json

/-! ## One character -/

theorem hexUnit?_control : ∀ n < 32,
    hexUnit? '0' '0' (hexDigit (n / 16)) (hexDigit (n % 16)) = some n := by decide

theorem readNumbers_unit {a b c d : Char} {n : Nat} (h : hexUnit? a b c d = some n)
    (rest : List Char) :
    readNumbers ('\\' :: 'u' :: a :: b :: c :: d :: rest) = prepend n (readNumbers rest) := by
  rw [readNumbers, h]

theorem readNumbers_plain {c : Char} (hquote : c ≠ '"') (hbackslash : c ≠ '\\')
    (hcontrol : ¬ c.toNat < 32) (rest : List Char) :
    readNumbers (c :: rest) = prepend c.toNat (readNumbers rest) := by
  rw [readNumbers]
  · rw [if_neg (by simp [hbackslash, hcontrol])]
  all_goals simp [hquote, hbackslash]

theorem readNumbers_escape (c : Char) (rest : List Char) :
    readNumbers (escape c ++ rest) = prepend c.toNat (readNumbers rest) := by
  unfold escape
  split
  · rfl
  · rfl
  · rfl
  · rfl
  · rfl
  · rfl
  · rfl
  · rename_i hquote hbackslash _ _ _ _ _
    split
    · rename_i hcontrol
      exact readNumbers_unit (hexUnit?_control c.toNat hcontrol) rest
    · rename_i hcontrol
      exact readNumbers_plain hquote hbackslash hcontrol rest

/-! ## Texts -/

theorem readNumbers_text (text rest : List Char) :
    readNumbers (text.flatMap escape ++ '"' :: rest) = some (text.map Char.toNat, rest) := by
  induction text with
  | nil => rfl
  | cons c text ih =>
    rw [List.flatMap_cons, List.append_assoc, readNumbers_escape, ih]
    rfl

/-- A character is not half of one. -/
theorem not_half (c : Char) : Half.isHigh c.toNat = false ∧ Half.isLow c.toNat = false := by
  have hrange : c.toNat < 0xD800 ∨ 0xDFFF < c.toNat := c.valid.imp_right And.left
  unfold Half.isHigh Half.isLow
  rw [Bool.and_eq_false_iff, Bool.and_eq_false_iff, decide_eq_false_iff_not,
    decide_eq_false_iff_not, decide_eq_false_iff_not, decide_eq_false_iff_not]
  omega

theorem spell_cons_of_not_isHigh {n : Nat} (h : Half.isHigh n = false) (rest : List Nat) :
    spell (n :: rest) = singleChar n :: spell rest := by
  cases rest with
  | nil => rfl
  | cons m rest =>
    rw [spell, h]
    rfl

theorem singleChar_toNat (c : Char) : singleChar c.toNat = c := by
  rw [singleChar, (not_half c).1, (not_half c).2]
  exact Char.ofNat_toNat c

theorem spell_toNat (text : List Char) : spell (text.map Char.toNat) = text := by
  induction text with
  | nil => rfl
  | cons c text ih =>
    rw [List.map_cons, spell_cons_of_not_isHigh (not_half c).1, singleChar_toNat, ih]

/-- What is quoted is read, whatever characters it holds. -/
theorem readQuoted_escape (s : String) (rest : List Char) :
    readQuoted (s.toList.flatMap escape ++ '"' :: rest) = some (s, rest) := by
  rw [readQuoted, readNumbers_text]
  show some (String.ofList (spell (s.toList.map Char.toNat)), rest) = some (s, rest)
  rw [spell_toNat, String.ofList_toList]

/-! ## Halves of characters -/

theorem hexValue?_hexDigit : ∀ n < 16, hexValue? (hexDigit n) = some n := by decide

theorem hexUnit?_hexUnit {n : Nat} (h : n < 0x10000) :
    hexUnit? (hexDigit (n / 4096 % 16)) (hexDigit (n / 256 % 16)) (hexDigit (n / 16 % 16))
      (hexDigit (n % 16)) = some n := by
  have hdigit : ∀ m, hexValue? (hexDigit (m % 16)) = some (m % 16) :=
    fun m => hexValue?_hexDigit _ (Nat.mod_lt m (by decide))
  have hvalue : ((n / 4096 % 16 * 16 + n / 256 % 16) * 16 + n / 16 % 16) * 16 + n % 16 = n := by
    omega
  simp only [hexUnit?, hdigit, Option.bind_eq_bind, Option.bind_some, Option.pure_def, hvalue]

/-- Half of a character is read as the mark that stands for it. -/
theorem readQuoted_half (half : Half) (rest : List Char) :
    readQuoted ('\\' :: 'u' :: (hexUnit half.unit ++ '"' :: rest)) =
      some (String.singleton Half.replacement, rest) := by
  have hplace := half.place.isLt
  have hunit : half.unit < 0x10000 := by
    unfold Half.unit Half.first
    omega
  have hmark : singleChar half.unit = Half.replacement := by
    have hhalf : (Half.isHigh half.unit || Half.isLow half.unit) = true := by
      unfold Half.isHigh Half.isLow Half.unit Half.first
      rw [Bool.or_eq_true, Bool.and_eq_true, Bool.and_eq_true, decide_eq_true_iff,
        decide_eq_true_iff, decide_eq_true_iff, decide_eq_true_iff]
      omega
    rw [singleChar, if_pos hhalf]
  have hread : readNumbers ('\\' :: 'u' :: (hexUnit half.unit ++ '"' :: rest)) =
      some ([half.unit], rest) := readNumbers_unit (hexUnit?_hexUnit hunit) ('"' :: rest)
  rw [readQuoted, hread]
  show some (String.ofList [singleChar half.unit], rest) = _
  rw [hmark]
  rfl

end Json
end Worksheet
