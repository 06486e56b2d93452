/-
Checks of values whose shape is only known when they arrive.

A schema is put together from checks of single values and from ways to make checks of lists and
records out of checks of their parts.  A `Checker` supplies these, and a schema is a function of
the checker, so that whatever is proved of a schema holds of every checker that keeps to the rules
of `Checker.Lawful`.

The rules say which values are taken and as what; of what is refused they say how many issues there
are, at which places and in which order.  How an issue is worded is left to the checker.
-/
import Worksheet.Issue

namespace Worksheet

/-- What a value stands for, or all that is wrong with it. -/
abbrev Verdict (α : Type) := Except (List Issue) α

abbrev Check (α : Type) := Value → Verdict α

/-- The words that a value may be, each with its meaning. -/
abbrev Choices (α : Type) := List (String × α)

namespace Verdict

variable {α : Type}

def issues : Verdict α → List Issue
  | .ok _ => []
  | .error issues => issues

/-- The issues of the items of a list, one item after the other. -/
def itemIssues (verdicts : List (Verdict α)) : List Issue :=
  verdicts.zipIdx.flatMap fun item => (issues item.1).map (Issue.under (Issue.positionKey item.2))

end Verdict

/-! ## Fields -/

namespace Shape

/-- Names under which every record has something, whatever fields it was given. -/
def inherited : List String :=
  ["constructor", "__proto__", "toString", "toLocaleString", "valueOf", "hasOwnProperty",
    "isPrototypeOf", "propertyIsEnumerable", "__defineGetter__", "__defineSetter__",
    "__lookupGetter__", "__lookupSetter__"]

/-- A name that a record has something under only if it was given so, and that keeps its place
among other names: list indexes come first wherever they are written. -/
def Plain (name : String) : Prop := Record.index? name = none ∧ name ∉ inherited

instance (name : String) : Decidable (Plain name) := inferInstanceAs (Decidable (_ ∧ _))

end Shape

/-- The fields that a record is asked for, in their order, each with its name and its check. -/
structure Shape (ι : Type) (Part : ι → Type) where
  fields : List ι
  complete : ∀ i, i ∈ fields
  nodup : fields.Nodup
  name : ι → String
  name_injective : ∀ i j, name i = name j → i = j
  plain : ∀ i, Shape.Plain (name i)
  check : ∀ i, Check (Part i)

namespace Shape

variable {ι : Type} {Part : ι → Type} (shape : Shape ι Part)

/-- The verdict on one field of a value. -/
def verdict (value : Value) (i : ι) : Verdict (Part i) :=
  shape.check i (value.field (shape.name i))

/-- The issues of all fields, in their order. -/
def issues (value : Value) : List Issue :=
  shape.fields.flatMap fun i =>
    (shape.verdict value i).issues.map (Issue.under (shape.name i))

end Shape

/-! ## Checkers -/

/-- What schemas are put together from. -/
structure Checker where
  text : Check Value
  finite : Check Value
  null : Check Value
  /-- Takes what one of the checks takes. -/
  union : List (Check Value) → Check Value
  /-- Makes something else of what a check takes. -/
  transform : {α β : Type} → Check α → (α → β) → Check β
  /-- A list of which each item is checked. -/
  list : {α : Type} → Check α → Check (List α)
  choice : {α : Type} → Choices α → Check α
  /-- Another value stands in for one that is missing. -/
  withDefault : {α : Type} → Check α → Value → Check α
  optional : {α : Type} → Check α → Check (Option α)
  record : {ι : Type} → {Part : ι → Type} → Shape ι Part → Check (∀ i, Part i)

/-- The check takes the values with the property, as they are.  It has one thing to say against any
other, of that value itself, and which it is depends on the kind of the value. -/
structure Check.Takes (check : Check Value) (property : Value → Prop) : Prop where
  takes : ∀ value, property value → check value = .ok value
  refuses : ∃ problem : String → Problem, ∀ value, ¬ property value →
    check value = .error [⟨[], problem value.kind⟩]

/-- The rules that schemas rely on. -/
structure Checker.Lawful (checker : Checker) : Prop where
  text_takes : checker.text.Takes fun value => value.kind = "string"
  finite_takes : checker.finite.Takes fun value => value.isFinite = true
  null_takes : checker.null.Takes fun value => value = .null
  /-- The first check that takes the value is the one that counts. -/
  union_takes : ∀ checks value part,
    (checks.findSome? fun check => (check value).toOption) = some part →
      checker.union checks value = .ok part
  /-- What no check takes is refused for a reason of its own or for that of one of the checks. -/
  union_refuses : ∀ checks value, (∀ check ∈ checks, ∃ issues, check value = .error issues) →
    (∃ problem, checker.union checks value = .error [⟨[], problem⟩]) ∨
      ∃ check ∈ checks, checker.union checks value = check value
  /-- Of the value no more matters than what the checks make of it. -/
  union_congr : ∀ checks value other, (∀ check ∈ checks, check value = check other) →
    checker.union checks value = checker.union checks other
  transform_eq : ∀ {α β : Type} (check : Check α) (f : α → β) value,
    checker.transform check f value = (check value).map f
  list_takes : ∀ {α : Type} (check : Check α) items parts, items.map check = parts.map .ok →
    checker.list check (.list items) = .ok parts
  /-- One faulty item is enough to refuse a list, and then all of them are reported. -/
  list_refuses : ∀ {α : Type} (check : Check α) items item issues, item ∈ items →
    check item = .error issues →
      checker.list check (.list items) = .error (Verdict.itemIssues (items.map check))
  list_refuses_other : ∀ {α : Type} (check : Check α), ∃ problem : String → Problem,
    ∀ value, (∀ items, value ≠ .list items) →
      checker.list check value = .error [⟨[], problem value.kind⟩]
  choice_takes : ∀ {α : Type} (choices : Choices α) word meaning,
    choices.lookup word = some meaning → checker.choice choices (.string word) = .ok meaning
  choice_refuses : ∀ {α : Type} (choices : Choices α) value,
    (∀ choice ∈ choices, value ≠ .string choice.1) →
      ∃ problem, checker.choice choices value = .error [⟨[], problem⟩]
  withDefault_absent : ∀ {α : Type} (check : Check α) fallback part, check fallback = .ok part →
    checker.withDefault check fallback .absent = .ok part
  withDefault_of_ne : ∀ {α : Type} (check : Check α) fallback value, value ≠ .absent →
    checker.withDefault check fallback value = check value
  optional_absent : ∀ {α : Type} (check : Check α), checker.optional check .absent = .ok none
  optional_of_ne : ∀ {α : Type} (check : Check α) value, value ≠ .absent →
    checker.optional check value = (check value).map some
  record_takes : ∀ {ι : Type} {Part : ι → Type} (shape : Shape ι Part) fields parts,
    (∀ i, shape.verdict (.record fields) i = .ok (parts i)) →
      checker.record shape (.record fields) = .ok parts
  /-- One faulty field is enough to refuse a record, and then all of them are reported. -/
  record_refuses : ∀ {ι : Type} {Part : ι → Type} (shape : Shape ι Part) fields i issues,
    shape.verdict (.record fields) i = .error issues →
      checker.record shape (.record fields) = .error (shape.issues (.record fields))

end Worksheet
