/-
Reading decimal numbers.

A decimal is a sign, the whole number that its digits spell and a power of ten.  Scanning
takes the longest decimal at the front of a text and returns what follows it, and `round`
gives the double nearest to the exact value, so a decimal of any length is rounded once.
-/
import Worksheet.Binary64.Basic

namespace Worksheet

/-- The value `digits * 10 ^ exponent`, with a sign that zero keeps. -/
structure Decimal where
  negative : Bool
  digits : Nat
  exponent : Int
  deriving DecidableEq

namespace Decimal

/-- The whole number that a list of decimal digits spells. -/
def value (digits : List Char) : Nat := Nat.ofDigitChars 10 digits 0

/-- The digits of a whole number, with no leading zero. -/
def digitsOf (n : Nat) : List Char := Nat.toDigits 10 n

theorem value_digitsOf (n : Nat) : value (digitsOf n) = n :=
  Nat.ofDigitChars_ten_toDigits

theorem isDigit_of_mem_digitsOf {n : Nat} {c : Char} (h : c ∈ digitsOf n) : c.isDigit = true :=
  Nat.isDigit_of_mem_toDigits (by decide) (by decide) h

/-- Beyond 10^400 every decimal is infinite and below 10^-400 every decimal is zero, which
spares the powers of ten of a decimal such as `1e999999999`. -/
def reach : Int := 400

def round (d : Decimal) : Binary64 :=
  let top : Int := (digitsOf d.digits).length + d.exponent
  if d.digits = 0 then .zero d.negative
  else if reach < top then .infinite d.negative
  else if top < -reach then .zero d.negative
  else if 0 ≤ d.exponent then
    .ofRatio d.negative (d.digits * Nat.pow 10 d.exponent.toNat * Binary64.one) 1
  else .ofRatio d.negative (d.digits * Binary64.one) (Nat.pow 10 (-d.exponent).toNat)

/-! ## Scanning

The grammar is that of a number in JSON text: no leading zero before another digit, and
at least one digit after a point and after an exponent mark. -/

def scanDigits (text : List Char) : List Char × List Char :=
  (text.takeWhile Char.isDigit, text.dropWhile Char.isDigit)

def scanMinus : List Char → Bool × List Char
  | '-' :: rest => (true, rest)
  | rest => (false, rest)

/-- A point and the digits after it; no digits if there is no point. -/
def scanFraction : List Char → Option (List Char × List Char)
  | '.' :: rest =>
    match scanDigits rest with
    | ([], _) => none
    | found => some found
  | rest => some ([], rest)

/-- An exponent; zero if there is no exponent mark. -/
def scanExponent : List Char → Option (Int × List Char)
  | [] => some (0, [])
  | mark :: rest =>
    if mark = 'e' ∨ mark = 'E' then
      let (negative, rest) :=
        match rest with
        | '-' :: rest => (true, rest)
        | '+' :: rest => (false, rest)
        | rest => (false, rest)
      match scanDigits rest with
      | ([], _) => none
      | (digits, rest) =>
        some (if negative then -(value digits : Int) else (value digits : Int), rest)
    else some (0, mark :: rest)

/-- Digits with no leading zero, unless zero is the only digit. -/
def scanWhole (text : List Char) : Option (List Char × List Char) :=
  match scanDigits text with
  | ([], _) => none
  | (['0'], rest) => some (['0'], rest)
  | ('0' :: _, _) => none
  | found => some found

def scan (text : List Char) : Option (Decimal × List Char) := do
  let (negative, rest) := scanMinus text
  let (whole, rest) ← scanWhole rest
  let (fraction, rest) ← scanFraction rest
  let (exponent, rest) ← scanExponent rest
  return (⟨negative, value (whole ++ fraction), exponent - fraction.length⟩, rest)

end Decimal

namespace Binary64

/-- Reads the text of a double: a decimal or one of the names of the values that have none. -/
def ofText? (text : String) : Option Binary64 :=
  if text = "NaN" then some .nan
  else if text = "Infinity" then some (.infinite false)
  else if text = "-Infinity" then some (.infinite true)
  else
    match Decimal.scan text.toList with
    | some (d, []) => some d.round
    | _ => none

end Binary64
end Worksheet
