/-
The tokens of a formula.

Cutting a text at its signs turns the signs of the text into tokens and keeps nothing else of what
stands between two of them but its trimmed text (`split_homomorphism`).  The two equations determine
the tokens of every text, sign by sign; so no sign is lost or invented, and between two operands
there is always a sign.
-/
import Worksheet.Proofs.Formula.Split
import Mathlib.Data.List.Chain

namespace Worksheet
namespace Formula

open Text

/-- The token is a sign. -/
def IsSign (token : List Char) : Prop := token = ['+'] ∨ token = ['-']

instance (token : List Char) : Decidable (IsSign token) := inferInstanceAs (Decidable (_ ∨ _))

/-- What a text is cut into: signs and operands, where no operand is next to another and there are
as many signs as in the text. -/
structure Tokens (text : List Char) (tokens : List (List Char)) : Prop where
  forall_mem : ∀ token ∈ tokens, IsSign token ∨ Core token
  apart : tokens.IsChain fun token next => IsSign token ∨ IsSign next
  count : tokens.countP (fun token => IsSign token) = text.count '+' + text.count '-'

variable {text front back : List Char}

/-! ## Signs -/

theorem isSign_char (s : Sign) : IsSign [s.char] := by
  cases s with
  | plus => exact .inl rfl
  | minus => exact .inr rfl

theorem count_sign (s : Sign) : [s.char].count '+' + [s.char].count '-' = 1 := by
  cases s <;> rfl

theorem signFree_iff : SignFree text ↔ '+' ∉ text ∧ '-' ∉ text := by
  constructor
  · intro h
    have hnone : ∀ s : Sign, s.char ∉ text := by
      intro s hmem
      have hchar := h _ hmem
      rw [Sign.ofChar?_char] at hchar
      cases hchar
    exact ⟨hnone .plus, hnone .minus⟩
  · rintro ⟨hplus, hminus⟩ c hc
    cases hsign : Sign.ofChar? c with
    | none => rfl
    | some s =>
      rw [Sign.ofChar?_eq_some hsign] at hc
      cases s with
      | plus => exact absurd hc hplus
      | minus => exact absurd hc hminus

theorem Core.not_isSign (h : Core text) : ¬ IsSign text := by
  obtain ⟨hplus, hminus⟩ := signFree_iff.mp h.signFree
  rintro (rfl | rfl)
  · exact hplus (List.mem_singleton_self _)
  · exact hminus (List.mem_singleton_self _)

/-! ## The tokens of a text, sign by sign -/

theorem SignFree.tokens_nil (h : SignFree text) : Tokens text [] where
  forall_mem _ hmem := absurd hmem List.not_mem_nil
  apart := .nil
  count := by
    obtain ⟨hplus, hminus⟩ := signFree_iff.mp h
    rw [List.count_eq_zero.mpr hplus, List.count_eq_zero.mpr hminus]
    rfl

theorem SignFree.tokens_singleton (h : SignFree text) {operand : List Char} (hcore : Core operand) :
    Tokens text [operand] where
  forall_mem := List.forall_mem_singleton.mpr (.inr hcore)
  apart := .singleton operand
  count := by
    rw [List.countP_cons_of_neg (by simpa using hcore.not_isSign), h.tokens_nil.count]

/-- A text without a sign has at most one token. -/
theorem SignFree.tokens_split (h : SignFree text) : Tokens text (split text) := by
  rw [split_of_signFree h]
  split
  · exact h.tokens_nil
  · rename_i hne
    obtain ⟨_, _, _, _, _, htrimmed⟩ := exists_eq_trim text
    exact h.tokens_singleton ⟨hne, signFree_trim h, htrimmed⟩

/-- A sign keeps the operands on its two sides apart. -/
theorem Tokens.append_sign {tokens more : List (List Char)} (hfront : Tokens front tokens)
    (s : Sign) (hback : Tokens back more) :
    Tokens (front ++ s.char :: back) (tokens ++ [s.char] :: more) where
  forall_mem := List.forall_mem_append.mpr
    ⟨hfront.forall_mem, List.forall_mem_cons.mpr ⟨.inl (isSign_char s), hback.forall_mem⟩⟩
  apart := by
    refine List.isChain_append.mpr ⟨hfront.apart, ?_, fun _ _ next hnext => ?_⟩
    · exact List.isChain_cons.mpr ⟨fun _ _ => .inl (isSign_char s), hback.apart⟩
    · rw [← Option.some.inj hnext]
      exact .inr (isSign_char s)
  count := by
    rw [List.countP_append, List.countP_cons_of_pos (by simpa using isSign_char s), hfront.count,
      hback.count, List.append_cons, List.count_append, List.count_append, List.count_append,
      List.count_append, ← count_sign s]
    omega

theorem tokens_split (text : List Char) : Tokens text (split text) := by
  induction text using induction_on_signs with
  | free text h => exact h.tokens_split
  | sign front s back h ih =>
    rw [split_append_sign]
    exact h.tokens_split.append_sign s ih

/-- Cutting goes past a sign as if the texts on its two sides were cut alone, and of a text without
signs it keeps the trimmed text, unless that is empty.  So every text is cut into signs and
operands that are apart, with as many signs as the text has. -/
theorem split_homomorphism :
    (∀ (front back : List Char) (s : Sign),
      split (front ++ s.char :: back) = split front ++ [s.char] :: split back) ∧
    (∀ text : List Char, '+' ∉ text → '-' ∉ text →
      split text = if trim text = [] then [] else [trim text]) ∧
    ∀ text, Tokens text (split text) :=
  ⟨fun front back s => split_append_sign front s back,
    fun _ hplus hminus => split_of_signFree (signFree_iff.mpr ⟨hplus, hminus⟩), tokens_split⟩

/-- An operand between blanks, and only blanks. -/
theorem split_homomorphism_blanks :
    let operand := "\t A1 ".toList
    let blank := " \n".toList
    ('+' ∉ operand ∧ '-' ∉ operand ∧ split operand = ["A1".toList]) ∧
      '+' ∉ blank ∧ '-' ∉ blank ∧ split blank = [] := by
  intro operand blank
  have hplus : '+' ∉ operand := by decide
  have hminus : '-' ∉ operand := by decide
  have hplus' : '+' ∉ blank := by decide
  have hminus' : '-' ∉ blank := by decide
  exact ⟨⟨hplus, hminus, split_homomorphism.2.1 operand hplus hminus⟩, hplus', hminus',
    split_homomorphism.2.1 blank hplus' hminus'⟩

/-- Signs at both ends and next to each other. -/
example : split "- 5-+ B2 -".toList = ["-", "5", "-", "+", "B2", "-"].map String.toList := by
  decide

end Formula
end Worksheet
