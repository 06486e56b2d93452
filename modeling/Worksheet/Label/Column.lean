/-
Column labels.

Columns count A, B, …, Z, AA, AB, …: a label is a numeral in base 26 whose digits run from
one to twenty-six, so there is no zero digit and every whole number from one on has exactly
one label.  Numbers are doubles on both sides: the label of a number beyond 2^53 and the
number of a label too long for 53 bits are rounded at every step.
-/
import Worksheet.Fault

namespace Worksheet
namespace ColumnLabel

def base : Binary64 := 26

/-- The place of a letter in the alphabet, counted from one, in either case. -/
def letterValue (c : Char) : Nat := if c.isUpper then c.toNat - 64 else c.toNat - 96

/-- The capital letter at a place counted from zero. -/
def letter (place : Nat) : Char := Char.ofNat (65 + place)

theorem letterValue_letter {place : Nat} (h : place < 26) :
    letterValue (letter place) = place + 1 := by
  have hall : ∀ p ∈ List.range 26, letterValue (letter p) = p + 1 := by decide
  exact hall place (List.mem_range.mpr h)

/-- Only the letters of ASCII count as letters. -/
theorem letterValue_range {c : Char} (h : c.isAlpha = true) :
    1 ≤ letterValue c ∧ letterValue c ≤ 26 := by
  unfold letterValue
  split
  · rename_i hu
    have hu' : 65 ≤ c.toNat ∧ c.toNat ≤ 90 := of_decide_eq_true hu
    omega
  · rename_i hu
    have h' : (c.isUpper || c.isLower) = true := h
    rw [Bool.not_eq_true] at hu
    rw [hu, Bool.false_or] at h'
    have hl : 97 ≤ c.toNat ∧ c.toNat ≤ 122 := by
      have hb := (Bool.and_eq_true _ _).mp h'
      exact ⟨of_decide_eq_true hb.1, of_decide_eq_true hb.2⟩
    omega

/-! ## From label to number -/

/-- Reads the letters that are left after those that `total` stands for. -/
def readFrom (label : String) (total : Binary64) : List Char → Except Fault Binary64
  | [] => .ok total
  | c :: rest =>
    if c.isAlpha then readFrom label (total * base + .ofNat (letterValue c)) rest
    else .error (.invalidLabel label (some (String.singleton c)))

/-- The number of a column label, counted from one.  The empty label is zero, unless it is
to be refused. -/
def toIndex (label : String) (requireNonEmpty : Bool) : Except Fault Binary64 :=
  if requireNonEmpty ∧ label.toList = [] then .error (.invalidLabel label none)
  else readFrom label 0 label.toList

/-! ## From number to label -/

/-- Puts the letters of `remaining` in front of a label.  A step takes away one, since there
is no zero digit, and divides by twenty-six. -/
def writeBefore (label : List Char) : Nat → Binary64 → List Char
  | 0, _ => label
  | steps + 1, remaining =>
    if Binary64.lt 0 remaining then
      let place := (((remaining - 1) % base).toNat?).getD 0
      writeBefore (letter place :: label) steps ((remaining - 1) / base).floor
    else label

/-- At least the number of letters: a step takes off more than one binary place. -/
def steps (index : Binary64) : Nat :=
  match index.toNat? with
  | some n => n.log2 + 1
  | none => 0

/-- The label of a whole number that is not negative; zero has the empty label. -/
def letters (index : Binary64) : List Char := writeBefore [] (steps index) index

/-- The label of a column number counted from one. -/
def ofIndex (index : Binary64) : Except Fault String :=
  if index.isInteger ∧ ¬ Binary64.lt index 0 then .ok (String.ofList (letters index))
  else .error (.invalidIndex index)

end ColumnLabel
end Worksheet
