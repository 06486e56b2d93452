/-
A sheet handed in as JSON text.

A plain value and its JSON text are taken alike, with the same sheet or the same fault
(`read_render`), because reading the text back changes only what a sheet does not look at: the
sign of zero, and the fields of a record where a cell should be.  In particular a sheet of any
texts survives the way through JSON.
-/
import Worksheet.Proofs.Input.Exact
import Worksheet.Proofs.Json.RoundTrip

namespace Worksheet

/-- A value that JSON can carry: nothing is missing in it and its numbers are finite. -/
inductive Value.Plain : Value → Prop
  | null : Value.Plain .null
  | boolean (b : Bool) : Value.Plain (.boolean b)
  | number (negative : Bool) (units : Nat) (fits : Binary64.Fits units) :
      Value.Plain (.number (.finite negative units fits))
  | string (s : String) : Value.Plain (.string s)
  | list {items : List Value} (h : ∀ item ∈ items, item.Plain) : Value.Plain (.list items)
  | record {fields : Record} (h : ∀ field ∈ fields, field.2.Plain) : Value.Plain (.record fields)

namespace Json

/-- What a value is after the way through text. -/
def echo (value : Value) : Value := reread (normal value)

theorem echo_list (items : List Value) : echo (.list items) = .list (items.map echo) := by
  show Value.list (rereadItems (normalItems items)) = _
  congr 1
  induction items with
  | nil => rfl
  | cons item rest ih =>
    rw [normalItems, rereadItems, ih, List.map_cons]
    rfl

/-- Only the sign of zero is lost, which no text of a number shows. -/
theorem echo_number (negative : Bool) (units : Nat) (fits : Binary64.Fits units) :
    ∃ sign, echo (.number (.finite negative units fits)) = .number (.finite sign units fits) ∧
      (Binary64.finite sign units fits).text = (Binary64.finite negative units fits).text := by
  by_cases hzero : units = 0
  · subst hzero
    refine ⟨false, rfl, ?_⟩
    rw [Binary64.text, Binary64.text, Binary64.textChars_of_safe (Binary64.safeInt?_zero false fits),
      Binary64.textChars_of_safe (Binary64.safeInt?_zero negative fits)]
  · refine ⟨negative, ?_, rfl⟩
    show reread (if units = 0 then _ else Value.number (.finite negative units fits)) = _
    rw [if_neg hzero]
    rfl

/-- A function that sees neither the sign of zero nor the fields of a record, and of a list only
what is left of it, does not see the difference. -/
theorem apply_echo {α : Type} (f : Value → α) {value : Value} (h : value.Plain)
    (hnumber : ∀ negative sign units fits,
      (Binary64.finite sign units fits).text = (Binary64.finite negative units fits).text →
      f (.number (.finite sign units fits)) = f (.number (.finite negative units fits)))
    (hlist : ∀ items : List Value, (∀ item ∈ items, item.Plain) →
      f (.list (items.map echo)) = f (.list items))
    (hrecord : ∀ fields other : Record, f (.record other) = f (.record fields)) :
    f (echo value) = f value := by
  cases h with
  | null => rfl
  | boolean b => rfl
  | number negative units fits =>
    obtain ⟨sign, hecho, htext⟩ := echo_number negative units fits
    rw [hecho]
    exact hnumber negative sign units fits htext
  | string s => rfl
  | @list items h =>
    rw [echo_list]
    exact hlist items h
  | @record fields h => exact hrecord fields _

end Json

namespace Sheet

open Json (echo apply_echo)

/-! ## The way through text -/

theorem not_isCell_list (items : List Value) : ¬ IsCell (.list items) := by
  rintro ⟨text, h⟩
  cases h

theorem not_isCell_record (fields : Record) : ¬ IsCell (.record fields) := by
  rintro ⟨text, h⟩
  cases h

section

variable {checker : Checker} (lawful : checker.Lawful)

include lawful

theorem cellCheck_echo {value : Value} (h : value.Plain) :
    cellCheck checker (echo value) = cellCheck checker value := by
  apply apply_echo (cellCheck checker) h
  · intro negative sign units fits htext
    rw [cellCheck_of_isCell lawful ⟨_, .number sign units fits⟩,
      cellCheck_of_isCell lawful ⟨_, .number negative units fits⟩]
    exact congrArg Except.ok htext
  · exact fun items _ => cellCheck_congr lawful (not_isCell_list _) (not_isCell_list items) rfl
  · exact fun fields other =>
      cellCheck_congr lawful (not_isCell_record other) (not_isCell_record fields) rfl

/-- A check of lists sees no difference if the check of the items sees none. -/
theorem list_apply_echo {α : Type} {check : Check α}
    (hcheck : ∀ item : Value, item.Plain → check (echo item) = check item) {value : Value}
    (h : value.Plain) : checker.list check (echo value) = checker.list check value := by
  apply apply_echo (checker.list check) h
  · exact fun _ _ _ _ _ => lawful.list_congr_of_not_list check
      (fun _ => Value.noConfusion) (fun _ => Value.noConfusion) rfl
  · intro items hitems
    apply lawful.list_congr
    rw [List.map_map]
    exact List.map_congr_left fun item hitem => hcheck item (hitems item hitem)
  · exact fun _ _ => lawful.list_congr_of_not_list check
      (fun _ => Value.noConfusion) (fun _ => Value.noConfusion) rfl

theorem rowsOf_echo {value : Value} (h : value.Plain) :
    rowsOf (echo value) checker = rowsOf value checker := by
  have hrow : ∀ row : Value, row.Plain → rowCheck checker (echo row) = rowCheck checker row :=
    fun _ hplain => list_apply_echo lawful (fun _ => cellCheck_echo lawful) hplain
  exact list_apply_echo lawful hrow h

theorem read_text (style : Json.Style) {value : Value} (h : value.Plain) :
    read (.string (Json.render style value)) checker = ofValue value checker := by
  have hparse : Json.parse (Json.render style value) = some (echo value) :=
    Json.parse_render style value
  rw [read, hparse]
  show ofValue (echo value) checker = ofValue value checker
  rw [ofValue, ofValue, rowsOf_echo lawful h]

end

/-! ## Sheets of texts -/

/-- A sheet as a list of rows of texts. -/
def toValue (sheet : Sheet) : Value := .list (sheet.rows.map fun row => .list (row.map .string))

theorem plain_toValue (sheet : Sheet) : sheet.toValue.Plain := by
  refine .list fun row hrow => ?_
  obtain ⟨texts, -, rfl⟩ := List.mem_map.mp hrow
  refine .list fun item hitem => ?_
  obtain ⟨text, -, rfl⟩ := List.mem_map.mp hitem
  exact .string text

theorem ofValue_toValue {checker : Checker} (lawful : checker.Lawful) (sheet : Sheet) :
    ofValue sheet.toValue checker = .ok sheet := by
  apply ofValue_eq_ok_iff.mpr
  apply (rowsOf_eq_ok_iff lawful).mpr
  refine ⟨sheet.rows.map fun row => row.map .string, ?_, ?_⟩
  · rw [List.map_map]
    rfl
  · have hrow : ∀ texts : List String, List.Forall₂ Spelled (texts.map .string) texts := by
      intro texts
      induction texts with
      | nil => exact .nil
      | cons text rest ih => exact .cons (.text text) ih
    induction sheet.rows with
    | nil => exact .nil
    | cons texts rest ih => exact .cons (hrow texts) ih

/-- A plain value and its JSON text, in any layout, are taken alike: as the same sheet or with the
same fault.  A sheet of texts comes back from JSON as it is, whatever its cells hold. -/
theorem read_render (checker : Checker) (lawful : checker.Lawful) (style : Json.Style) :
    (∀ value : Value, value.Plain → value.kind ≠ "string" →
      read (.string (Json.render style value)) checker = read value checker) ∧
    ∀ sheet : Sheet, read (.string (Json.render style sheet.toValue)) checker = .ok sheet := by
  constructor
  · intro value hplain hvalue
    rw [read_text lawful style hplain, read_eq_ofValue hvalue]
  · intro sheet
    rw [read_text lawful style (plain_toValue sheet), ofValue_toValue lawful]

/-- The text of rows that differ in length is refused like the rows. -/
theorem read_render_uneven :
    Checker.standard.Lawful ∧
    read (.string (Json.render .compact (.list [.list [.string "\n\"", .number (.zero true)],
      .list [.null]]))) = .error (.raggedRows 1 1 2) := by
  refine ⟨Checker.lawful_standard, ?_⟩
  have hplain : (Value.list [.list [.string "\n\"", .number (.zero true)],
      .list [.null]]).Plain := by
    refine .list (List.forall_mem_cons.mpr ⟨.list ?_, List.forall_mem_singleton.mpr (.list ?_)⟩)
    · exact List.forall_mem_cons.mpr ⟨.string _, List.forall_mem_singleton.mpr (.number true 0 _)⟩
    · exact List.forall_mem_singleton.mpr .null
  rw [(read_render .standard Checker.lawful_standard .compact).1 _ hplain (by decide)]
  rfl

end Sheet
end Worksheet
