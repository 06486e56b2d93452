/-
Halves of characters.

A character above U+FFFF is written as two units of sixteen bits, the high half and the low
half, which come from 2048 numbers that no character has.  A half is no text by itself; it
shows only where a text is taken apart unit by unit, or where JSON spells one by its number.
`pair_of_split?` says that taking apart loses nothing.
-/
namespace Worksheet

/-- Half of a character, by its place among the 2048 halves. -/
structure Half where
  place : Fin 2048
  deriving DecidableEq, Inhabited

namespace Half

def first : Nat := 0xD800

def unit (half : Half) : Nat := first + half.place

def isHigh (unit : Nat) : Bool := 0xD800 ≤ unit && unit ≤ 0xDBFF

def isLow (unit : Nat) : Bool := 0xDC00 ≤ unit && unit ≤ 0xDFFF

/-- The character of two halves. -/
def pair (high low : Nat) : Char :=
  Char.ofNat (0x10000 + (high - 0xD800) * 0x400 + (low - 0xDC00))

/-- The two halves of a character; none if it is a unit by itself. -/
def split? (c : Char) : Option (Half × Half) :=
  if c.toNat < 0x10000 then none
  else
    let above := c.toNat - 0x10000
    some (⟨Fin.ofNat 2048 (above / 0x400)⟩, ⟨Fin.ofNat 2048 (0x400 + above % 0x400)⟩)

/-- What is shown in place of half a character. -/
def replacement : Char := '\ufffd'

/-- The two halves of a character make that character. -/
theorem pair_of_split? {c : Char} {high low : Half} (h : split? c = some (high, low)) :
    pair high.unit low.unit = c := by
  unfold split? at h
  split at h
  · cases h
  · rename_i hc
    have hlt : c.toNat < 0x110000 := by
      rcases c.valid with h | ⟨-, h⟩
      · exact Nat.lt_trans h (by decide)
      · exact h
    cases h
    have hn : 0x10000 + (0xD800 + (c.toNat - 0x10000) / 0x400 % 2048 - 0xD800) * 0x400 +
        (0xD800 + (0x400 + (c.toNat - 0x10000) % 0x400) % 2048 - 0xDC00) = c.toNat := by
      omega
    show Char.ofNat _ = c
    exact (congrArg Char.ofNat hn).trans (Char.ofNat_toNat c)

end Half
end Worksheet
