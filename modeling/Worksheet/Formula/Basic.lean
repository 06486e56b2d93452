/-
Formulas: one operand, or two with a sign between them.

A text is cut at its signs.  Two operands are therefore never neighbours, and a sign that
stands where an operand is expected belongs to that operand, so `-5`, `A1+-2` and `-A1` are
formulas.  What an operand means is left to `Term`; here it is any text without a sign.
-/
import Worksheet.Text.Blank
import Worksheet.Fault

namespace Worksheet

/-- Plus or minus, between two operands or before one. -/
inductive Sign where
  | plus
  | minus
  deriving DecidableEq

namespace Sign

def char : Sign → Char
  | plus => '+'
  | minus => '-'

def ofChar? : Char → Option Sign
  | '+' => some plus
  | '-' => some minus
  | _ => none

theorem ofChar?_char (s : Sign) : ofChar? s.char = some s := by cases s <;> rfl

theorem ofChar?_eq_some {c : Char} {s : Sign} (h : ofChar? c = some s) : c = s.char := by
  unfold ofChar? at h
  split at h <;> cases h <;> rfl

end Sign

/-- An operand as written, apart from its sign. -/
structure Operand where
  sign : Sign
  text : String
  deriving DecidableEq

inductive Formula where
  | single (operand : Operand)
  | binary (left : Operand) (operator : Sign) (right : Operand)
  deriving DecidableEq

namespace Formula

/-! ## Splitting -/

/-- Puts a character in front of the first piece. -/
def extendFirst (c : Char) : List (List Char) → List (List Char)
  | [] => [[c]]
  | piece :: pieces => (c :: piece) :: pieces

/-- Cuts a text before and after every sign. -/
def pieces : List Char → List (List Char)
  | [] => [[]]
  | c :: rest =>
    if (Sign.ofChar? c).isSome then [] :: [c] :: pieces rest else extendFirst c (pieces rest)

/-- The signs of a text and the trimmed texts between them.  Blank pieces are dropped. -/
def split (text : List Char) : List (List Char) :=
  ((pieces text).map Text.trim).filter (· ≠ [])

/-! ## Parsing -/

inductive Fragment where
  | sign (s : Sign)
  | operand (text : List Char)
  deriving DecidableEq

namespace Fragment

def ofPiece : List Char → Fragment
  | [c] =>
    match Sign.ofChar? c with
    | some s => .sign s
    | none => .operand [c]
  | piece => .operand piece

end Fragment

/-- Takes an operand, with at most one sign before it. -/
def takeOperand : List Fragment → Option (Operand × List Fragment)
  | .operand text :: rest => some (⟨.plus, String.ofList text⟩, rest)
  | .sign s :: .operand text :: rest => some (⟨s, String.ofList text⟩, rest)
  | _ => none

/-- The formula that fragments make up, if they make up one. -/
def ofFragments (fragments : List Fragment) : Option Formula :=
  match takeOperand fragments with
  | some (operand, []) => some (.single operand)
  | some (left, .sign operator :: rest) =>
    match takeOperand rest with
    | some (right, []) => some (.binary left operator right)
    | _ => none
  | _ => none

def parse (text : String) : Except Fault Formula :=
  match ofFragments ((split text.toList).map Fragment.ofPiece) with
  | some formula => .ok formula
  | none => .error (.invalidFormula text none)

def operands : Formula → List Operand
  | .single operand => [operand]
  | .binary left _ right => [left, right]

end Formula
end Worksheet
