/-
Cutting a formula at its signs.

Everything follows from two equations: a text with a sign in it is cut there
(`split_append_sign`), and one with no sign is trimmed and is one piece, or none if it is blank
(`split_of_signFree`).  Read from the left, a text is therefore blanks, a sign after blanks or an
operand between blanks, and what comes after it is cut on its own (`fragments_cases`).
-/
import Worksheet.Proofs.Text.Trim
import Worksheet.Formula.Basic

namespace Worksheet
namespace Formula

open Text

def SignFree (text : List Char) : Prop := ∀ c ∈ text, Sign.ofChar? c = none

/-- The text is over or goes on with a sign. -/
def Follows (text : List Char) : Prop := text = [] ∨ ∃ s rest, text = Sign.char s :: rest

theorem follows_nil : Follows [] := .inl rfl

theorem follows_sign (s : Sign) (rest : List Char) : Follows (s.char :: rest) := .inr ⟨s, rest, rfl⟩

theorem SignFree.append {front back : List Char} (hf : SignFree front) (hb : SignFree back) :
    SignFree (front ++ back) :=
  fun c hc => (List.mem_append.mp hc).elim (hf c) (hb c)

theorem signFree_trim {text : List Char} (h : SignFree text) : SignFree (trim text) :=
  fun c hc => h c (mem_of_mem_trim hc)

theorem signFree_of_blanks {text : List Char} (h : Blanks text) : SignFree text := by
  intro c hc
  cases hsign : Sign.ofChar? c with
  | none => rfl
  | some s =>
    have hblank := h c hc
    rw [Sign.ofChar?_eq_some hsign] at hblank
    cases s <;> cases hblank

theorem isBlank_sign (s : Sign) : isBlank s.char = false := by cases s <;> rfl

/-! ## Pieces -/

theorem pieces_ne_nil (text : List Char) : pieces text ≠ [] := by
  cases text with
  | nil => exact List.cons_ne_nil _ _
  | cons c rest =>
    rw [pieces]
    split
    · exact List.cons_ne_nil _ _
    · cases pieces rest <;> exact List.cons_ne_nil _ _

theorem extendFirst_append (c : Char) {front : List (List Char)} (h : front ≠ [])
    (back : List (List Char)) : extendFirst c (front ++ back) = extendFirst c front ++ back := by
  cases front with
  | nil => exact absurd rfl h
  | cons piece rest => rfl

theorem pieces_append_sign (front : List Char) (s : Sign) (back : List Char) :
    pieces (front ++ s.char :: back) = pieces front ++ [s.char] :: pieces back := by
  induction front with
  | nil =>
    show pieces (s.char :: back) = [] :: [s.char] :: pieces back
    rw [pieces, Sign.ofChar?_char, if_pos Option.isSome_some]
  | cons c rest ih =>
    rw [List.cons_append, pieces, pieces, ih]
    split
    · rfl
    · exact extendFirst_append c (pieces_ne_nil rest) _

theorem pieces_of_signFree {text : List Char} (h : SignFree text) : pieces text = [text] := by
  induction text with
  | nil => rfl
  | cons c rest ih =>
    rw [pieces, h c List.mem_cons_self, ih fun d hd => h d (List.mem_cons_of_mem c hd)]
    rfl

/-! ## Splitting -/

theorem trim_sign (s : Sign) : trim [s.char] = [s.char] := by cases s <;> rfl

theorem split_append_sign (front : List Char) (s : Sign) (back : List Char) :
    split (front ++ s.char :: back) = split front ++ [s.char] :: split back := by
  unfold split
  rw [pieces_append_sign, List.map_append, List.map_cons, trim_sign, List.filter_append,
    List.filter_cons_of_pos (by simp)]

theorem split_of_signFree {text : List Char} (h : SignFree text) :
    split text = if trim text = [] then [] else [trim text] := by
  unfold split
  rw [pieces_of_signFree h, List.map_singleton]
  by_cases hblank : trim text = []
  · rw [if_pos hblank, hblank]
    rfl
  · rw [if_neg hblank, List.filter_cons_of_pos (by simpa using hblank), List.filter_nil]

/-! ## Fragments -/

def fragments (text : List Char) : List Fragment := (split text).map Fragment.ofPiece

/-- A text that can stand for an operand. -/
structure Core (text : List Char) : Prop where
  ne_nil : text ≠ []
  signFree : SignFree text
  trimmed : Trimmed text

theorem ofPiece_sign (s : Sign) : Fragment.ofPiece [s.char] = .sign s := by
  rw [Fragment.ofPiece, Sign.ofChar?_char]

theorem ofPiece_of_signFree {text : List Char} (h : SignFree text) :
    Fragment.ofPiece text = .operand text := by
  unfold Fragment.ofPiece
  split
  · rename_i c
    rw [h c List.mem_cons_self]
  · rfl

theorem fragments_nil : fragments [] = [] := rfl

theorem fragments_append_sign (front : List Char) (s : Sign) (back : List Char) :
    fragments (front ++ s.char :: back) = fragments front ++ .sign s :: fragments back := by
  rw [fragments, split_append_sign, List.map_append, List.map_cons, ofPiece_sign]
  rfl

theorem fragments_of_blanks {text : List Char} (h : Blanks text) : fragments text = [] := by
  rw [fragments, split_of_signFree (signFree_of_blanks h), if_pos (trim_of_blanks h)]
  rfl

theorem fragments_blanks_sign {before : List Char} (h : Blanks before) (s : Sign)
    (rest : List Char) : fragments (before ++ s.char :: rest) = .sign s :: fragments rest := by
  rw [fragments_append_sign, fragments_of_blanks h, List.nil_append]

theorem fragments_sign (s : Sign) (rest : List Char) :
    fragments (s.char :: rest) = .sign s :: fragments rest :=
  fragments_blanks_sign blanks_nil s rest

theorem fragments_core {before text after : List Char} (hb : Blanks before) (ht : Core text)
    (ha : Blanks after) : fragments (before ++ (text ++ after)) = [.operand text] := by
  have hfree : SignFree (before ++ (text ++ after)) :=
    (signFree_of_blanks hb).append (ht.signFree.append (signFree_of_blanks ha))
  rw [fragments, split_of_signFree hfree, trim_append hb ht.trimmed ha, if_neg ht.ne_nil,
    List.map_singleton, ofPiece_of_signFree ht.signFree]

theorem fragments_core_append {before text after rest : List Char} (hb : Blanks before)
    (ht : Core text) (ha : Blanks after) (hr : Follows rest) :
    fragments (before ++ (text ++ (after ++ rest))) = .operand text :: fragments rest := by
  rcases hr with rfl | ⟨s, last, rfl⟩
  · rw [List.append_nil, fragments_core hb ht ha, fragments_nil]
  · have hgroup : before ++ (text ++ (after ++ s.char :: last)) =
        before ++ (text ++ after) ++ s.char :: last := by
      simp only [List.append_assoc]
    rw [hgroup, fragments_append_sign, fragments_core hb ht ha, fragments_sign]
    rfl

/-! ## Blanks at the ends -/

theorem fragments_of_signFree {text : List Char} (h : SignFree text) :
    fragments text = if trim text = [] then [] else [.operand (trim text)] := by
  rw [fragments, split_of_signFree h]
  split
  · rfl
  · rw [List.map_singleton, ofPiece_of_signFree (signFree_trim h)]

/-- Texts without signs that differ in the blanks at their ends are cut alike. -/
theorem fragments_eq_of_trim_eq {text text' : List Char} (h : SignFree text) (h' : SignFree text')
    (heq : trim text' = trim text) : fragments text' = fragments text := by
  rw [fragments_of_signFree h, fragments_of_signFree h', heq]

/-! ## A text from the left -/

theorem signFree_or_exists_sign (text : List Char) :
    SignFree text ∨ ∃ front s back, text = front ++ Sign.char s :: back ∧ SignFree front := by
  induction text with
  | nil => exact .inl fun c hc => (by cases hc)
  | cons c rest ih =>
    cases hsign : Sign.ofChar? c with
    | some s =>
      rw [Sign.ofChar?_eq_some hsign]
      exact .inr ⟨[], s, rest, rfl, fun d hd => (by cases hd)⟩
    | none =>
      have hcons : ∀ {text}, SignFree text → SignFree (c :: text) := by
        intro text h d hd
        rcases List.mem_cons.mp hd with rfl | hin
        · exact hsign
        · exact h d hin
      rcases ih with hfree | ⟨front, s, back, rfl, hfree⟩
      · exact .inl (hcons hfree)
      · exact .inr ⟨c :: front, s, back, rfl, hcons hfree⟩

/-- A property of texts is shown for those without a sign, and past the first sign for those with
one. -/
@[elab_as_elim]
theorem induction_on_signs {motive : List Char → Prop}
    (free : ∀ text, SignFree text → motive text)
    (sign : ∀ front s back, SignFree front → motive back →
      motive (front ++ Sign.char s :: back)) (text : List Char) : motive text := by
  -- the text behind the sign is shorter, and no part of the text by its constructors
  induction hlength : text.length using Nat.strongRecOn generalizing text with
  | _ length ih =>
    rcases signFree_or_exists_sign text with hfree | ⟨front, s, back, rfl, hfree⟩
    · exact free text hfree
    · have hless : back.length < length := by
        rw [← hlength, List.length_append, List.length_cons]
        omega
      exact sign front s back hfree (ih back.length hless back rfl)

theorem fragments_blanks_append {before : List Char} (h : Blanks before) (text : List Char) :
    fragments (before ++ text) = fragments text := by
  have hcut : ∀ {front}, SignFree front → fragments (before ++ front) = fragments front :=
    fun {front} hfree => fragments_eq_of_trim_eq hfree ((signFree_of_blanks h).append hfree)
      (trim_blanks_append h front)
  rcases signFree_or_exists_sign text with hfree | ⟨front, s, back, rfl, hfree⟩
  · exact hcut hfree
  · rw [← List.append_assoc, fragments_append_sign, fragments_append_sign, hcut hfree]

theorem fragments_append_blanks (text : List Char) {after : List Char} (h : Blanks after) :
    fragments (text ++ after) = fragments text := by
  -- The blanks stand behind the last sign, so one sign after the other is cut off.
  induction text using induction_on_signs with
  | free text hfree =>
    exact fragments_eq_of_trim_eq hfree (hfree.append (signFree_of_blanks h))
      (trim_append_blanks text h)
  | sign front s back _ ih =>
    rw [List.append_assoc, List.cons_append, fragments_append_sign, fragments_append_sign, ih]

theorem fragments_trim (text : List Char) : fragments (trim text) = fragments text := by
  obtain ⟨before, after, htext, hb, ha, -⟩ := exists_eq_trim text
  have hcut : fragments text = fragments (before ++ (trim text ++ after)) :=
    congrArg fragments htext
  rw [hcut, fragments_blanks_append hb, fragments_append_blanks _ ha]

/-- The text of a cell is trimmed before its equals sign is taken off, and cut afterwards. -/
theorem exists_trim_equals {before : List Char} (h : Blanks before) (text : List Char) :
    ∃ rest, trim (before ++ '=' :: text) = '=' :: rest ∧ fragments rest = fragments text := by
  obtain ⟨after, htext, ha, -⟩ := exists_eq_trimEnd text
  refine ⟨trimEnd text, ?_, ?_⟩
  · rw [trim_blanks_append h]
    exact trim_cons rfl text
  · rw [← fragments_append_blanks _ ha, ← htext]

theorem SignFree.blanks_or_core {text : List Char} (h : SignFree text) :
    Blanks text ∨ ∃ before core after, text = before ++ (core ++ after) ∧ Blanks before ∧
      Core core ∧ Blanks after := by
  by_cases hnil : trim text = []
  · exact .inl (trim_eq_nil_iff.mp hnil)
  · obtain ⟨before, after, htext, hb, ha, htrimmed⟩ := exists_eq_trim text
    exact .inr ⟨before, trim text, after, htext, hb, ⟨hnil, signFree_trim h, htrimmed⟩, ha⟩

/-- A text is blank, goes on with a sign, or goes on with an operand up to the next sign. -/
theorem fragments_cases (text : List Char) :
    (Blanks text ∧ fragments text = []) ∨
    (∃ before s rest, text = before ++ Sign.char s :: rest ∧ Blanks before ∧
      fragments text = .sign s :: fragments rest) ∨
    ∃ before core after rest, text = before ++ (core ++ (after ++ rest)) ∧ Blanks before ∧
      Core core ∧ Blanks after ∧ Follows rest ∧
      fragments text = .operand core :: fragments rest := by
  rcases signFree_or_exists_sign text with hfree | ⟨front, s, rest, rfl, hfree⟩
  · rcases hfree.blanks_or_core with hblank | ⟨before, core, after, rfl, hb, hc, ha⟩
    · exact .inl ⟨hblank, fragments_of_blanks hblank⟩
    · refine .inr (.inr ⟨before, core, after, [], by rw [List.append_nil], hb, hc, ha, follows_nil, ?_⟩)
      rw [fragments_core hb hc ha, fragments_nil]
  · rcases hfree.blanks_or_core with hblank | ⟨before, core, after, rfl, hb, hc, ha⟩
    · exact .inr (.inl ⟨front, s, rest, rfl, hblank, fragments_blanks_sign hblank s rest⟩)
    · have hgroup : before ++ (core ++ after) ++ s.char :: rest =
          before ++ (core ++ (after ++ s.char :: rest)) := by
        simp only [List.append_assoc]
      rw [hgroup]
      exact .inr (.inr ⟨before, core, after, s.char :: rest, rfl, hb, hc, ha, follows_sign s rest,
        fragments_core_append hb hc ha (follows_sign s rest)⟩)

end Formula
end Worksheet
