/-
Blank characters and trimming.

The blanks are the 25 characters that a sheet ignores around a cell, a formula and an
operand: the controls that move the pen, the spaces of Unicode, its two separators and the
byte order mark.  U+0085, U+180E and U+200B look as if they belonged here and do not.
-/
namespace Worksheet
namespace Text

def isBlank (c : Char) : Bool :=
  match c with
  | '\t' | '\x0b' | '\x0c' | '\n' | '\r' | ' ' => true
  | '\u00a0' | '\u1680' | '\u2028' | '\u2029' | '\u202f' | '\u205f' | '\u3000' | '\ufeff' => true
  | c => '\u2000' ≤ c && c ≤ '\u200a'

def trimStart (text : List Char) : List Char := text.dropWhile isBlank

def trimEnd (text : List Char) : List Char := (text.reverse.dropWhile isBlank).reverse

/-- The text without the blanks at its two ends. -/
def trim (text : List Char) : List Char := trimEnd (trimStart text)

end Text
end Worksheet
