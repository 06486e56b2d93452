/-
Reading JSON text.

The grammar is the strict one: blanks are the space, the tab and the two line ends, a text
holds no raw control character, and nothing follows the value but blanks.  A key that is
written twice keeps its first place and its last value.

Two escapes in a row that name the halves of a character are read as the character.  A half that
stands alone is read as the replacement character: texts hold whole characters here, and a reader
whose texts hold halves would keep it as it is.

Every call takes at least one character off the text before it goes two calls further in,
so twice the length of the text bounds the depth of the calls; `parse` gives that much fuel
and no caller sees it.
-/
import Worksheet.Value.Basic

namespace Worksheet
namespace Json

def isBlank (c : Char) : Bool := c == ' ' || c == '\t' || c == '\n' || c == '\r'

def skipBlanks (text : List Char) : List Char := text.dropWhile isBlank

/-! ## Texts -/

def hexValue? (c : Char) : Option Nat :=
  if c.isDigit then some (c.toNat - 48)
  else if 'a' ≤ c ∧ c ≤ 'f' then some (c.toNat - 87)
  else if 'A' ≤ c ∧ c ≤ 'F' then some (c.toNat - 55)
  else none

def hexUnit? (a b c d : Char) : Option Nat := do
  let a ← hexValue? a
  let b ← hexValue? b
  let c ← hexValue? c
  let d ← hexValue? d
  return ((a * 16 + b) * 16 + c) * 16 + d

/-- The character of a number that is not half of a pair.  A half by itself is not kept: the
replacement character stands for it. -/
def singleChar (n : Nat) : Char :=
  if Half.isHigh n || Half.isLow n then Half.replacement else Char.ofNat n

/-- The characters that numbers spell, where two halves in a row make one character. -/
def spell : List Nat → List Char
  | [] => []
  | [n] => [singleChar n]
  | n :: m :: rest =>
    if Half.isHigh n && Half.isLow m then Half.pair n m :: spell rest
    else singleChar n :: spell (m :: rest)

def shortEscape? : Char → Option Char
  | '"' => some '"'
  | '\\' => some '\\'
  | '/' => some '/'
  | 'b' => some '\x08'
  | 'f' => some '\x0c'
  | 'n' => some '\n'
  | 'r' => some '\r'
  | 't' => some '\t'
  | _ => none

def prepend (n : Nat) : Option (List Nat × List Char) → Option (List Nat × List Char)
  | some (numbers, rest) => some (n :: numbers, rest)
  | none => none

/-- The numbers of the characters of a quoted text, after its opening quote, and what follows
its closing quote. -/
def readNumbers : List Char → Option (List Nat × List Char)
  | [] => none
  | '"' :: rest => some ([], rest)
  | '\\' :: 'u' :: a :: b :: c :: d :: rest =>
    match hexUnit? a b c d with
    | some unit => prepend unit (readNumbers rest)
    | none => none
  | '\\' :: c :: rest =>
    match shortEscape? c with
    | some c => prepend c.toNat (readNumbers rest)
    | none => none
  | c :: rest => if c.toNat < 32 || c == '\\' then none else prepend c.toNat (readNumbers rest)

/-- The quoted text after its opening quote, and what follows its closing quote. -/
def readQuoted (text : List Char) : Option (String × List Char) :=
  match readNumbers text with
  | some (numbers, rest) => some (String.ofList (spell numbers), rest)
  | none => none

/-! ## Values -/

mutual

/-- The value at the front, blanks before it apart, and what follows it. -/
def readValue : Nat → List Char → Option (Value × List Char)
  | 0, _ => none
  | fuel + 1, text =>
    match skipBlanks text with
    | 'n' :: 'u' :: 'l' :: 'l' :: rest => some (.null, rest)
    | 't' :: 'r' :: 'u' :: 'e' :: rest => some (.boolean true, rest)
    | 'f' :: 'a' :: 'l' :: 's' :: 'e' :: rest => some (.boolean false, rest)
    | '"' :: rest =>
      match readQuoted rest with
      | some (s, rest) => some (.string s, rest)
      | none => none
    | '[' :: rest =>
      match skipBlanks rest with
      | ']' :: rest => some (.list [], rest)
      | rest =>
        match readItems fuel rest with
        | some (items, rest) => some (.list items, rest)
        | none => none
    | '{' :: rest =>
      match skipBlanks rest with
      | '}' :: rest => some (.record [], rest)
      | rest =>
        match readFields fuel rest with
        | some (fields, rest) => some (.record (Record.ofFields fields), rest)
        | none => none
    | rest =>
      match Decimal.scan rest with
      | some (d, rest) => some (.number d.round, rest)
      | none => none

/-- One or more items and the bracket that closes them. -/
def readItems : Nat → List Char → Option (List Value × List Char)
  | 0, _ => none
  | fuel + 1, text =>
    match readValue fuel text with
    | none => none
    | some (item, rest) =>
      match skipBlanks rest with
      | ']' :: rest => some ([item], rest)
      | ',' :: rest =>
        match readItems fuel rest with
        | some (items, rest) => some (item :: items, rest)
        | none => none
      | _ => none

/-- One or more fields and the brace that closes them. -/
def readFields : Nat → List Char → Option (List (String × Value) × List Char)
  | 0, _ => none
  | fuel + 1, text =>
    match skipBlanks text with
    | '"' :: rest =>
      match readQuoted rest with
      | none => none
      | some (key, rest) =>
        match skipBlanks rest with
        | ':' :: rest =>
          match readValue fuel rest with
          | none => none
          | some (value, rest) =>
            match skipBlanks rest with
            | '}' :: rest => some ([(key, value)], rest)
            | ',' :: rest =>
              match readFields fuel rest with
              | some (fields, rest) => some ((key, value) :: fields, rest)
              | none => none
            | _ => none
        | _ => none
    | _ => none

end

/-- The value of a JSON text; none if the text is not JSON. -/
def parse (text : String) : Option Value :=
  match readValue (2 * text.toList.length + 2) text.toList with
  | some (value, rest) => if skipBlanks rest = [] then some value else none
  | none => none

end Json
end Worksheet
