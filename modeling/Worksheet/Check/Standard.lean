/-
The checker that programs use.

Its issues are worded in English.  A value of the wrong kind is reported by both kinds, one that
is missing is `Required`, and a union speaks for itself unless one of its checks takes the kind of
the value: then the issue is about what that check has against the value.
-/
import Worksheet.Check.Basic

namespace Worksheet

/-! ## Wording -/

namespace Problem

def missing : Problem := ⟨"invalid_type", "Required"⟩

/-- The problem of a value that should have been of another kind. -/
def expected (kind received : String) : Problem :=
  if received = "undefined" then missing
  else ⟨"invalid_type", "Expected " ++ kind ++ ", received " ++ received⟩

def choiceList (words : List String) : String :=
  String.intercalate " | " (words.map fun word => "'" ++ word ++ "'")

/-- The problem of a text that is none of the words. -/
def notAChoice (words : List String) (received : String) : Problem :=
  ⟨"invalid_enum_value",
    "Invalid enum value. Expected " ++ choiceList words ++ ", received '" ++ received ++ "'"⟩

def notFinite : Problem := ⟨"not_finite", "Number must be finite"⟩

def noKindFits : Problem := ⟨"invalid_union", "Invalid input"⟩

end Problem

/-! ## Gathering -/

namespace Verdict

variable {α : Type}

/-- The parts if all are good, else all issues. -/
def gather : List (Verdict α) → Verdict (List α)
  | [] => .ok []
  | .ok part :: rest =>
    match gather rest with
    | .ok parts => .ok (part :: parts)
    | .error issues => .error issues
  | .error issues :: rest =>
    match gather rest with
    | .ok _ => .error issues
    | .error more => .error (issues ++ more)

/-- The verdict on a part, as one on the value that has it under the key. -/
def under (key : String) (verdict : Verdict α) : Verdict α :=
  verdict.mapError (List.map (Issue.under key))

/-- The issues of a check that takes the kind of the value, but not the value. -/
def objections? : Verdict α → Option (List Issue)
  | .ok _ => none
  | .error issues =>
    if issues.all fun issue => issue.problem.code ≠ "invalid_type" then some issues else none

end Verdict

/-! ## Checks -/

namespace Checker

def refuse {α : Type} (problem : Problem) : Verdict α := .error [⟨[], problem⟩]

namespace Standard

def text : Check Value := fun value =>
  if value.kind = "string" then .ok value else refuse (.expected "string" value.kind)

def finite : Check Value := fun value =>
  if value.isFinite then .ok value
  else refuse (if value.kind = "number" then .notFinite else .expected "number" value.kind)

def null : Check Value
  | .null => .ok .null
  | value => refuse (.expected "null" value.kind)

def union (checks : List (Check Value)) : Check Value := fun value =>
  let verdicts := checks.map fun check => check value
  match verdicts.findSome? Except.toOption with
  | some part => .ok part
  | none =>
    match verdicts.findSome? Verdict.objections? with
    | some issues => .error issues
    | none => refuse .noKindFits

def list {α : Type} (check : Check α) : Check (List α)
  | .list items =>
    .gather ((items.map check).zipIdx.map fun item => item.1.under (Issue.positionKey item.2))
  | value => refuse (.expected "array" value.kind)

def choice {α : Type} (choices : Choices α) : Check α
  | .string word =>
    match choices.lookup word with
    | some meaning => .ok meaning
    | none => refuse (.notAChoice (choices.map Prod.fst) word)
  | value => refuse (.expected (Problem.choiceList (choices.map Prod.fst)) value.kind)

def withDefault {α : Type} (check : Check α) (fallback : Value) : Check α
  | .absent => check fallback
  | value => check value

def optional {α : Type} (check : Check α) : Check (Option α)
  | .absent => .ok none
  | value => (check value).map some

def record {ι : Type} {Part : ι → Type} (shape : Shape ι Part) : Check (∀ i, Part i)
  | .record fields =>
    if h : ∀ i ∈ shape.fields, (shape.verdict (.record fields) i).toOption.isSome = true then
      .ok fun i => (shape.verdict (.record fields) i).toOption.get (h i (shape.complete i))
    else .error (shape.issues (.record fields))
  | value => refuse (.expected "object" value.kind)

end Standard

def standard : Checker where
  text := Standard.text
  finite := Standard.finite
  null := Standard.null
  union := Standard.union
  transform check f value := (check value).map f
  list := Standard.list
  choice := Standard.choice
  withDefault := Standard.withDefault
  optional := Standard.optional
  record := Standard.record

end Checker
end Worksheet
