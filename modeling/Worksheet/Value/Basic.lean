/-
Values whose shape is only known when they arrive: what a caller hands in as a sheet, the
settings to check and the facts attached to a log entry.

A record is a list of fields in the order in which they are met.  `Record.set` keeps the
order that readers of a log see: keys that are list indexes first, in ascending order, then
the others in the order of their first appearance.  Writing to a key that is there keeps its
place.
-/
import Worksheet.Binary64.Shortest
import Worksheet.Text.Half

namespace Worksheet

inductive Value where
  /-- No value at all, which is different from an explicit null. -/
  | absent
  | null
  | boolean (b : Bool)
  | number (x : Binary64)
  | string (s : String)
  /-- Half of a character, which is what is left of a text that was taken apart. -/
  | half (half : Half)
  | list (items : List Value)
  | record (fields : List (String × Value))
  deriving Inhabited

/-- Fields in the order in which they are met. -/
abbrev Record := List (String × Value)

namespace Record

/-- One more than the largest list index, and one less than 2^32. -/
def indexBound : Nat := 4294967295

/-- The list index that a key spells, if it spells one without leading zeros. -/
def index? (key : String) : Option Nat :=
  let digits := key.toList
  if digits ≠ [] ∧ digits.all Char.isDigit then
    let n := Decimal.value digits
    if Decimal.digitsOf n = digits ∧ n < indexBound then some n else none
  else none

/-- A new key goes in front of an old one only if it is an index and the old one is a larger
index or none. -/
def precedes (key old : String) : Bool :=
  match index? key, index? old with
  | some m, some n => m < n
  | some _, none => true
  | none, _ => false

def get? (fields : Record) (key : String) : Option Value := fields.lookup key

def set (fields : Record) (key : String) (value : Value) : Record :=
  match fields with
  | [] => [(key, value)]
  | (k, v) :: rest =>
    if k = key then (k, value) :: rest
    else if precedes key k then (key, value) :: (k, v) :: rest
    else (k, v) :: set rest key value

/-- Writes the fields of `newer` over those of `older`, one after the other. -/
def merge (older newer : Record) : Record :=
  newer.foldl (fun fields field => fields.set field.1 field.2) older

/-- The record that results from writing fields one after the other. -/
def ofFields (fields : List (String × Value)) : Record := merge [] fields

theorem merge_cons (older : Record) (field : String × Value) (newer : Record) :
    merge older (field :: newer) = merge (older.set field.1 field.2) newer := rfl

theorem merge_append (older first second : Record) :
    merge older (first ++ second) = merge (merge older first) second := by
  induction first generalizing older with
  | nil => rfl
  | cons field first ih => exact ih _

theorem get?_set_self (fields : Record) (key : String) (value : Value) :
    (fields.set key value).get? key = some value := by
  induction fields with
  | nil => simp [set, get?]
  | cons field rest ih =>
    obtain ⟨k, v⟩ := field
    unfold set
    split
    · rename_i h
      simp [get?, h]
    · rename_i h
      split
      · simp [get?]
      · have hk : (key == k) = false := by simpa using fun e => h e.symm
        simpa [get?, List.lookup_cons, hk] using ih

theorem get?_set_of_ne {fields : Record} {key other : String} {value : Value}
    (h : other ≠ key) : (fields.set key value).get? other = fields.get? other := by
  have hb : (other == key) = false := by simpa using h
  induction fields with
  | nil => simp [set, get?, List.lookup_cons, hb]
  | cons field rest ih =>
    obtain ⟨k, v⟩ := field
    unfold set
    split
    · rename_i hk
      subst hk
      simp [get?, List.lookup_cons, hb]
    · split
      · simp [get?, List.lookup_cons, hb]
      · cases hok : other == k with
        | true => simp [get?, List.lookup_cons, hok]
        | false => simpa [get?, List.lookup_cons, hok] using ih

end Record

namespace Value

/-- What a value is called when another kind was expected. -/
def kind : Value → String
  | absent => "undefined"
  | null => "null"
  | boolean _ => "boolean"
  | number .nan => "nan"
  | number _ => "number"
  | string _ => "string"
  | half _ => "string"
  | list _ => "array"
  | record _ => "object"

def isFinite : Value → Bool
  | number (.finite ..) => true
  | _ => false

/-- Something is there: not nothing, not false, not zero and not the empty text. -/
def isPresent : Value → Bool
  | absent => false
  | null => false
  | boolean b => b
  | number .nan => false
  | number x => !x.eq 0
  | string s => s ≠ ""
  | half _ => true
  | list _ => true
  | record _ => true

def indexed (items : List Value) : Record :=
  items.zipIdx.map fun (item, n) => (String.ofList (Decimal.digitsOf n), item)

def units (c : Char) : List Value :=
  match Half.split? c with
  | some (high, low) => [half high, half low]
  | none => [string (String.singleton c)]

/-- A value seen as fields.  A list is keyed by position and a text is the list of its units;
nothing else that is no record has fields. -/
def fields : Value → Record
  | record fields => fields
  | list items => indexed items
  | string s => indexed (s.toList.flatMap units)
  | _ => []

def field (value : Value) (key : String) : Value :=
  match value with
  | record fields => (Record.get? fields key).getD absent
  | _ => absent

def string? : Value → Option String
  | string s => some s
  | _ => none

/- A value inside a text.  A list shows its items with commas between them, where nothing
and null show as the empty text; a record shows no fields. -/
mutual

def display : Value → String
  | absent => "undefined"
  | null => "null"
  | boolean true => "true"
  | boolean false => "false"
  | number x => x.text
  | string s => s
  | half _ => String.singleton Half.replacement
  | list items => String.intercalate "," (displayItems items)
  | record _ => "[object Object]"

def displayItems : List Value → List String
  | [] => []
  | absent :: rest => "" :: displayItems rest
  | null :: rest => "" :: displayItems rest
  | item :: rest => display item :: displayItems rest

end

end Value
end Worksheet
