/-
Trimming.

A text is blanks, its trimmed part and blanks (`exists_eq_trim`), and it can be cut so in no
other way: where a run of blanks ends is decided by the first character that is not blank
(`eq_of_append_eq`).
-/
import Worksheet.Text.Blank

namespace Worksheet
namespace Text

def Blanks (text : List Char) : Prop := ∀ c ∈ text, isBlank c = true

structure Trimmed (text : List Char) : Prop where
  head : ∀ c, text.head? = some c → isBlank c = false
  last : ∀ c, text.getLast? = some c → isBlank c = false

theorem blanks_nil : Blanks [] := fun c hc => (by cases hc)

theorem Blanks.append {front back : List Char} (hf : Blanks front) (hb : Blanks back) :
    Blanks (front ++ back) :=
  fun c hc => (List.mem_append.mp hc).elim (hf c) (hb c)

/-! ## Where a run ends -/

/-- Dropping stops at the first character outside the class. -/
theorem dropWhile_append_eq {p : Char → Bool} {run rest : List Char}
    (h : ∀ c ∈ run, p c = true) (hstop : ∀ c, rest.head? = some c → p c = false) :
    (run ++ rest).dropWhile p = rest := by
  rw [List.dropWhile_append_of_pos h]
  cases rest with
  | nil => rfl
  | cons c rest => exact List.dropWhile_cons_of_neg (by simp [hstop c rfl])

theorem eq_of_append_eq {p : Char → Bool} {run run' rest rest' : List Char}
    (h : ∀ c ∈ run, p c = true) (h' : ∀ c ∈ run', p c = true)
    (hstop : ∀ c, rest.head? = some c → p c = false)
    (hstop' : ∀ c, rest'.head? = some c → p c = false) (heq : run ++ rest = run' ++ rest') :
    run = run' ∧ rest = rest' := by
  have hrest : rest = rest' := by
    rw [← dropWhile_append_eq h hstop, heq, dropWhile_append_eq h' hstop']
  rw [hrest] at heq
  exact ⟨List.append_cancel_right heq, hrest⟩

theorem head?_dropWhile_eq_false {p : Char → Bool} {text : List Char} {c : Char}
    (h : (text.dropWhile p).head? = some c) : p c = false := by
  have hstop := List.head?_dropWhile_not p text
  rw [h] at hstop
  exact hstop

/-! ## Trimming -/

theorem trimStart_append {before rest : List Char} (hb : Blanks before)
    (hr : ∀ c, rest.head? = some c → isBlank c = false) : trimStart (before ++ rest) = rest :=
  dropWhile_append_eq hb hr

theorem trimEnd_append {rest after : List Char} (ha : Blanks after)
    (hr : ∀ c, rest.getLast? = some c → isBlank c = false) : trimEnd (rest ++ after) = rest := by
  unfold trimEnd
  rw [List.reverse_append, dropWhile_append_eq, List.reverse_reverse]
  · exact fun c hc => ha c (List.mem_reverse.mp hc)
  · intro c hc
    rw [List.head?_reverse] at hc
    exact hr c hc

theorem trim_of_blanks {text : List Char} (h : Blanks text) : trim text = [] := by
  have hstart : trimStart (text ++ []) = [] := trimStart_append h fun c hc => (by cases hc)
  rw [List.append_nil] at hstart
  rw [trim, hstart]
  rfl

theorem trim_append {before text after : List Char} (hb : Blanks before) (ht : Trimmed text)
    (ha : Blanks after) : trim (before ++ (text ++ after)) = text := by
  cases text with
  | nil => exact trim_of_blanks (hb.append ha)
  | cons c rest =>
    have hstart : trimStart (before ++ (c :: rest ++ after)) = c :: rest ++ after :=
      trimStart_append hb fun d hd => ht.head d hd
    rw [trim, hstart]
    exact trimEnd_append ha ht.last

theorem Trimmed.trim_eq {text : List Char} (h : Trimmed text) : trim text = text := by
  have htrim := trim_append blanks_nil h blanks_nil
  rwa [List.nil_append, List.append_nil] at htrim

theorem exists_eq_trimEnd (text : List Char) :
    ∃ after, text = trimEnd text ++ after ∧ Blanks after ∧
      ∀ c, (trimEnd text).getLast? = some c → isBlank c = false := by
  refine ⟨(text.reverse.takeWhile isBlank).reverse, ?_, ?_, ?_⟩
  · unfold trimEnd
    rw [← List.reverse_append, List.takeWhile_append_dropWhile, List.reverse_reverse]
  · intro c hc
    exact List.all_eq_true.mp List.all_takeWhile c (List.mem_reverse.mp hc)
  · intro c hc
    unfold trimEnd at hc
    rw [List.getLast?_reverse] at hc
    exact head?_dropWhile_eq_false hc

/-- A text is its trimmed part between blanks. -/
theorem exists_eq_trim (text : List Char) :
    ∃ before after, text = before ++ (trim text ++ after) ∧ Blanks before ∧ Blanks after ∧
      Trimmed (trim text) := by
  obtain ⟨after, hafter, hblanks, hlast⟩ := exists_eq_trimEnd (trimStart text)
  refine ⟨text.takeWhile isBlank, after, ?_, ?_, hblanks, ?_, hlast⟩
  · show text = _ ++ (trimEnd (trimStart text) ++ after)
    rw [← hafter]
    exact List.takeWhile_append_dropWhile.symm
  · exact fun c hc => List.all_eq_true.mp List.all_takeWhile c hc
  · -- What is cut off at the end leaves the first character in place.
    intro c hc
    have hfront : (trimStart text).head? = some c := by
      rw [hafter, List.head?_append, show (trimEnd (trimStart text)).head? = some c from hc]
      rfl
    exact head?_dropWhile_eq_false hfront

theorem trim_trim (text : List Char) : trim (trim text) = trim text := by
  obtain ⟨before, after, htext, hb, ha, htrimmed⟩ := exists_eq_trim text
  exact htrimmed.trim_eq

theorem trim_blanks_append {before : List Char} (h : Blanks before) (text : List Char) :
    trim (before ++ text) = trim text := by
  obtain ⟨front, after, htext, hf, ha, htrimmed⟩ := exists_eq_trim text
  have hgroup : before ++ text = before ++ front ++ (trim text ++ after) := by
    rw [List.append_assoc, ← htext]
  rw [hgroup]
  exact trim_append (h.append hf) htrimmed ha

theorem trim_append_blanks (text : List Char) {after : List Char} (h : Blanks after) :
    trim (text ++ after) = trim text := by
  obtain ⟨before, back, htext, hb, ha, htrimmed⟩ := exists_eq_trim text
  have hgroup : text ++ after = before ++ (trim text ++ (back ++ after)) := by
    rw [← List.append_assoc (trim text), ← List.append_assoc, ← htext]
  rw [hgroup]
  exact trim_append hb htrimmed (ha.append h)

theorem trim_cons {c : Char} (h : isBlank c = false) (rest : List Char) :
    trim (c :: rest) = c :: trimEnd rest := by
  obtain ⟨after, hrest, ha, hlast⟩ := exists_eq_trimEnd rest
  have htrimmed : Trimmed (c :: trimEnd rest) := by
    refine ⟨fun d hd => Option.some.inj hd ▸ h, fun d hd => ?_⟩
    cases hend : trimEnd rest with
    | nil =>
      rw [hend] at hd
      exact Option.some.inj hd ▸ h
    | cons e back =>
      rw [hend, List.getLast?_cons_cons] at hd
      exact hlast d (hend ▸ hd)
  have htext : c :: rest = [] ++ (c :: trimEnd rest ++ after) := by
    rw [List.nil_append, List.cons_append, ← hrest]
  rw [htext]
  exact trim_append blanks_nil htrimmed ha

theorem mem_of_mem_trim {text : List Char} {c : Char} (h : c ∈ trim text) : c ∈ text := by
  obtain ⟨before, after, htext, -, -, -⟩ := exists_eq_trim text
  rw [htext]
  exact List.mem_append_right _ (List.mem_append_left _ h)

theorem trim_eq_nil_iff {text : List Char} : trim text = [] ↔ Blanks text := by
  refine ⟨fun h => ?_, trim_of_blanks⟩
  obtain ⟨before, after, htext, hb, ha, -⟩ := exists_eq_trim text
  rw [htext, h]
  exact hb.append ha

end Text
end Worksheet
