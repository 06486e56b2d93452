/-
Lower case, as far as it matters to words of ASCII letters.

A word of ASCII letters can be met by a text in another case only through the capitals of
ASCII and the Kelvin sign, whose lower case is the letter k.  Every other character keeps
its place outside ASCII when it is lowered; the capital i with a dot becomes two characters,
of which the second is no letter.
-/
namespace Worksheet
namespace Text

def kelvin : Char := '\u212a'

def lowerChar (c : Char) : Char := if c = kelvin then 'k' else c.toLower

def lower (text : List Char) : List Char := text.map lowerChar

/-- A word occurs in a text, with nothing between its letters. -/
def occursIn (word : List Char) : List Char → Bool
  | [] => word.isEmpty
  | c :: rest => word.isPrefixOf (c :: rest) || occursIn word rest

end Text
end Worksheet
