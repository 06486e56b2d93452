/-
The tokens of a text that names an instant.

Digits in a row are one number and letters in a row are one word; whatever stands in
parentheses, nested ones included, is one token of no meaning.  The text ends at its first
null character.  Every other character is a token by itself.
-/
import Worksheet.Binary64.Decimal
import Worksheet.Text.Blank

namespace Worksheet
namespace Instant

inductive Word where
  | month (number : Nat)
  /-- One half of the day, by the hours that come before it. -/
  | halfDay (hours : Nat)
  /-- A zone, by its distance from universal time in hours. -/
  | zone (hours : Int)
  /-- The single letter for universal time. -/
  | zulu
  /-- The single letter between a date and a time of day. -/
  | divider
  | unknown
  deriving DecidableEq

namespace Word

/-- The first three letters of the months; the other letters of such a word are free. -/
def months : List String :=
  ["jan", "feb", "mar", "apr", "may", "jun", "jul", "aug", "sep", "oct", "nov", "dec"]

/-- The words that have to be met in full. -/
def table : List (String × Word) :=
  [("am", halfDay 0), ("pm", halfDay 12), ("t", divider), ("z", zulu), ("ut", zone 0),
    ("utc", zone 0), ("gmt", zone 0), ("cdt", zone (-5)), ("cst", zone (-6)), ("edt", zone (-4)),
    ("est", zone (-5)), ("mdt", zone (-6)), ("mst", zone (-7)), ("pdt", zone (-7)),
    ("pst", zone (-8))]

def ofLetters (letters : List Char) : Word :=
  let lowered := letters.map Char.toLower
  match months.idxOf? (String.ofList (lowered.take 3)) with
  | some n => month (n + 1)
  | none => (table.lookup (String.ofList lowered)).getD unknown

end Word

inductive Token where
  | number (value length : Nat)
  | word (word : Word)
  /-- A plus, or a minus if it is behind. -/
  | sign (behind : Bool)
  | colon
  | point
  /-- A closing parenthesis that none has opened. -/
  | closing
  | blank
  | other
  deriving DecidableEq

namespace Token

/-- A number is known by its first nine digits, leading zeros apart, and by how many digits
it has in all. -/
def ofDigits (digits : List Char) : Token :=
  number (Decimal.value ((digits.dropWhile (· == '0')).take 9)) digits.length

/-- Letters are all characters from the capital A on, apart from blanks; the two separators
of lines and paragraphs count as letters. -/
def isLetter (c : Char) : Bool :=
  'A' ≤ c && (!Text.isBlank c || c == '\u2028' || c == '\u2029')

/-- The token that a character is by itself. -/
def ofChar (c : Char) : Token :=
  if c = '+' then sign false
  else if c = '-' then sign true
  else if c = ':' then colon
  else if c = '.' then point
  else if c = ')' then closing
  else if Text.isBlank c then blank
  else other

/-- What the characters before this one leave open.  Digits and letters are kept with the
last one in front. -/
inductive Open where
  | nothing
  | digits (backwards : List Char)
  | letters (backwards : List Char)
  /-- Parentheses, and how many of them stand inside the first one. -/
  | aside (depth : Nat)

namespace Open

def close : Open → List Token
  | digits backwards => [ofDigits backwards.reverse]
  | letters backwards => [word (Word.ofLetters backwards.reverse)]
  | _ => []

/-- What is open with one more character in it; none if the character does not belong to
it. -/
def extend? : Open → Char → Option Open
  | nothing, _ => none
  | digits backwards, c => if c.isDigit then some (digits (c :: backwards)) else none
  | letters backwards, c => if isLetter c then some (letters (c :: backwards)) else none
  | aside depth, c =>
    if c = '(' then some (aside (depth + 1))
    else if c = ')' then
      match depth with
      | 0 => some nothing
      | depth + 1 => some (aside depth)
    else some (aside depth)

/-- The tokens that a character is or starts with, and what it leaves open. -/
def start (c : Char) : List Token × Open :=
  if c.isDigit then ([], digits [c])
  else if isLetter c then ([], letters [c])
  else if c = '(' then ([other], aside 0)
  else ([ofChar c], nothing)

end Open

def scan (before : Open) : List Char → List Token
  | [] => before.close
  | c :: rest =>
    match before.extend? c with
    | some after => scan after rest
    | none => before.close ++ (Open.start c).1 ++ scan (Open.start c).2 rest

def ofText (s : String) : List Token := scan .nothing (s.toList.takeWhile (· != '\x00'))

end Token
end Instant
end Worksheet
