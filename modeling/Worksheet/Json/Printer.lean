/-
JSON text of a value.

`normal` first takes out what JSON cannot say: a field without a value is left out, an item
without a value and a number that is not finite become null, and zero loses its sign.  What
is left is printed, either without blanks or over several lines with two blanks for each
level.  Only quotes, backslashes, the control characters below U+0020 and halves of characters
are escaped.
-/
import Worksheet.Value.Basic

namespace Worksheet
namespace Json

/-! ## What JSON can say -/

def normalNumber : Binary64 → Value
  | .nan => .null
  | .infinite _ => .null
  | .finite negative units fits =>
    if units = 0 then .number (.zero false) else .number (.finite negative units fits)

mutual

def normal : Value → Value
  | .absent => .null
  | .number x => normalNumber x
  | .list items => .list (normalItems items)
  | .record fields => .record (normalFields fields)
  | value => value

def normalItems : List Value → List Value
  | [] => []
  | item :: rest => normal item :: normalItems rest

def normalFields : List (String × Value) → List (String × Value)
  | [] => []
  | (_, .absent) :: rest => normalFields rest
  | (key, value) :: rest => (key, normal value) :: normalFields rest

end

/-! ## Texts -/

/-- A digit of a hexadecimal number, in lower case. -/
def hexDigit (n : Nat) : Char := Nat.digitChar n

def escape (c : Char) : List Char :=
  match c with
  | '"' => ['\\', '"']
  | '\\' => ['\\', '\\']
  | '\x08' => ['\\', 'b']
  | '\t' => ['\\', 't']
  | '\n' => ['\\', 'n']
  | '\x0c' => ['\\', 'f']
  | '\r' => ['\\', 'r']
  | c =>
    if c.toNat < 32 then ['\\', 'u', '0', '0', hexDigit (c.toNat / 16), hexDigit (c.toNat % 16)]
    else [c]

def quote (text : List Char) : List Char := '"' :: (text.flatMap escape ++ ['"'])

/-- The four hexadecimal digits of a number below 2^16. -/
def hexUnit (n : Nat) : List Char :=
  [hexDigit (n / 4096 % 16), hexDigit (n / 256 % 16), hexDigit (n / 16 % 16), hexDigit (n % 16)]

/-- Half of a character, which can only be spelled by its number. -/
def quoteHalf (half : Half) : List Char := '"' :: '\\' :: 'u' :: (hexUnit half.unit ++ ['"'])

/-! ## Layout -/

/-- How a value is laid out: on one line, or over several lines that start at a depth. -/
inductive Style where
  | compact
  | indented (depth : Nat)
  deriving DecidableEq

namespace Style

def deeper : Style → Style
  | compact => compact
  | indented depth => indented (depth + 1)

def lineStart (depth : Nat) : List Char := '\n' :: List.replicate (2 * depth) ' '

/-- What stands after the opening bracket, between two parts and before the closing one. -/
def first : Style → List Char
  | compact => []
  | indented depth => lineStart (depth + 1)

def between (style : Style) : List Char := ',' :: style.first

def last : Style → List Char
  | compact => []
  | indented depth => lineStart depth

def colon : Style → List Char
  | compact => [':']
  | indented _ => [':', ' ']

end Style

def join (separator : List Char) : List (List Char) → List Char
  | [] => []
  | [part] => part
  | part :: rest => part ++ separator ++ join separator rest

/-- Parts inside brackets; nothing stands between the brackets if there is no part. -/
def enclose (style : Style) (left right : Char) : List (List Char) → List Char
  | [] => [left, right]
  | parts => left :: (style.first ++ join style.between parts ++ style.last ++ [right])

mutual

/-- Prints a value that JSON can say. -/
def print (style : Style) : Value → List Char
  | .absent => "null".toList
  | .null => "null".toList
  | .boolean true => "true".toList
  | .boolean false => "false".toList
  | .number x => x.textChars
  | .string s => quote s.toList
  | .half half => quoteHalf half
  | .list items => enclose style '[' ']' (printItems style.deeper items)
  | .record fields => enclose style '{' '}' (printFields style.deeper fields)

def printItems (style : Style) : List Value → List (List Char)
  | [] => []
  | item :: rest => print style item :: printItems style rest

def printFields (style : Style) : List (String × Value) → List (List Char)
  | [] => []
  | (key, value) :: rest =>
    (quote key.toList ++ style.colon ++ print style value) :: printFields style rest

end

def render (style : Style) (value : Value) : String :=
  String.ofList (print style (normal value))

end Json
end Worksheet
