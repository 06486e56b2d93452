/-
The shortest decimal text of a double.

The digits are the fewest that read back as the same double, and of those the decimal
nearest to it.  `search` goes down the decimal grids, one digit finer at a time, and tests
the two neighbours of the value on each grid by reading them: a decimal is accepted because
it reads back, not because of a bound on the number of digits.  On the grid of 10^-1074
every double is exact, so that is where the search ends at the latest.

Whole numbers of at most 53 bits are written directly.  They need no search: the doubles
around them are no more than one apart, so no shorter decimal reads back.
-/
import Worksheet.Binary64.Decimal

namespace Worksheet
namespace Binary64

/-- `units` as a ratio, measured in the places of the grid of `10 ^ exponent`. -/
def onGrid (units : Nat) (exponent : Int) : Nat × Nat :=
  if 0 ≤ exponent then (units, one * Nat.pow 10 exponent.toNat)
  else (units * Nat.pow 10 (-exponent).toNat, one)

/-- The decimal reads back as the positive double with these units. -/
def readsBack (units : Nat) (d : Decimal) : Bool :=
  match d.round with
  | .finite _ m _ => m == units
  | _ => false

/-- The point of a decimal grid nearest to the value, among its two neighbours that read
back.  A tie goes to the even one. -/
def gridPoint? (units : Nat) (exponent : Int) : Option Nat :=
  let (num, den) := onGrid units exponent
  let below := num / den
  let above := below + 1
  match readsBack units ⟨false, below, exponent⟩, readsBack units ⟨false, above, exponent⟩ with
  | false, false => none
  | true, false => some below
  | false, true => some above
  | true, true => some (nearest num den)

/-- The first grid from `exponent` downward that has a point which reads back. -/
def search (units : Nat) : Nat → Int → Decimal
  | 0, exponent =>
    let (num, den) := onGrid units exponent
    ⟨false, num / den, exponent⟩
  | steps + 1, exponent =>
    match gridPoint? units exponent with
    | some digits => ⟨false, digits, exponent⟩
    | none => search units steps (exponent - 1)

/-- An exponent of ten above the value: `log10 2` is a little less than 0.30103. -/
def topExponent (units : Nat) : Int :=
  ((units.log2 : Int) + 1 - fractionBits) * 30103 / 100000 + 1

/-- The shortest decimal that reads back as the positive double with these units. -/
def shortest (units : Nat) : Decimal :=
  let top := topExponent units
  search units (top + fractionBits).toNat top

/-! ## Layout -/

/-- Decimal points at most this far right of the first digit are written in place. -/
def positionalTop : Int := 21

/-- Decimal points more than this far left of the first digit are written in place. -/
def positionalBottom : Int := -6

/-- The exponent part of a text: a mark, an explicit sign and the digits. -/
def exponentText (n : Int) : List Char :=
  'e' :: (if n < 0 then '-' else '+') :: Decimal.digitsOf n.natAbs

/-- Writes significant digits whose decimal point stands after `point` of them. -/
def layout (digits : List Char) (point : Int) : List Char :=
  if digits.length ≤ point ∧ point ≤ positionalTop then
    digits ++ List.replicate (point.toNat - digits.length) '0'
  else if 0 < point ∧ point ≤ positionalTop then
    digits.take point.toNat ++ '.' :: digits.drop point.toNat
  else if positionalBottom < point ∧ point ≤ 0 then
    '0' :: '.' :: (List.replicate (-point).toNat '0' ++ digits)
  else
    match digits with
    | [d] => d :: exponentText (point - 1)
    | d :: rest => d :: '.' :: (rest ++ exponentText (point - 1))
    | [] => []

def stripZeros (digits : List Char) : List Char :=
  (digits.reverse.dropWhile (· = '0')).reverse

def decimalText (d : Decimal) : List Char :=
  let digits := Decimal.digitsOf d.digits
  layout (stripZeros digits) (digits.length + d.exponent)

/-- A whole number in decimal digits, with a sign only below zero. -/
def intText (n : Int) : List Char :=
  if n < 0 then '-' :: Decimal.digitsOf n.natAbs else Decimal.digitsOf n.natAbs

/-- The text of a double.  Negative zero is written without its sign. -/
def textChars (x : Binary64) : List Char :=
  match x.safeInt? with
  | some n => intText n
  | none =>
    match x with
    | .nan => "NaN".toList
    | .infinite false => "Infinity".toList
    | .infinite true => "-Infinity".toList
    | .finite false m _ => decimalText (shortest m)
    | .finite true m _ => '-' :: decimalText (shortest m)

def text (x : Binary64) : String := String.ofList x.textChars

end Binary64
end Worksheet
