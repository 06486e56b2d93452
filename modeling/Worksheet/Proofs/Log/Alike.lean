/-
Values that differ in their secrets only.

`Alike` asks for the same value except under sensitive keys, where the two may hold anything, at
any depth inside lists and records.  Which keys are sensitive is said in terms of words in texts
(`isSensitive_iff`).  Alike values are the same once their secrets are taken out (`Alike.redact_eq`),
and the operations that build records out of records keep them alike, so nothing that is done
before the secrets are taken out can tell two alike values apart.
-/
import Worksheet.Log.Redaction

namespace Worksheet

/-- The search finds exactly the words that are a part of the text. -/
theorem Text.occursIn_iff {word text : List Char} :
    Text.occursIn word text = true ↔ word <:+: text := by
  induction text with
  | nil =>
    show word.isEmpty = true ↔ word <:+: []
    rw [List.isEmpty_iff, List.infix_nil]
  | cons c rest ih =>
    rw [Text.occursIn, Bool.or_eq_true, List.isPrefixOf_iff_prefix, ih, List.infix_cons_iff]

namespace Redaction

/-- One of the words is a part of the key in lower case. -/
def Sensitive (key : String) : Prop :=
  ∃ word ∈ sensitiveWords, word.toList <:+: Text.lower key.toList

theorem isSensitive_iff {key : String} : isSensitive key = true ↔ Sensitive key := by
  unfold isSensitive Sensitive
  rw [List.any_eq_true]
  simp only [Text.occursIn_iff]

mutual

/-- The same value, but for what is held under sensitive keys. -/
inductive Alike : Value → Value → Prop
  | same (value : Value) : Alike value value
  | list {items items' : List Value} (h : AlikeItems items items') :
      Alike (.list items) (.list items')
  | record {fields fields' : Record} (h : AlikeFields fields fields') :
      Alike (.record fields) (.record fields')

inductive AlikeItems : List Value → List Value → Prop
  | nil : AlikeItems [] []
  | cons {item item' : Value} {rest rest' : List Value} (first : Alike item item')
      (others : AlikeItems rest rest') : AlikeItems (item :: rest) (item' :: rest')

/-- The same keys in the same order. -/
inductive AlikeFields : Record → Record → Prop
  | nil : AlikeFields [] []
  | secret {key : String} {rest rest' : Record} (sensitive : Sensitive key) (value value' : Value)
      (others : AlikeFields rest rest') :
      AlikeFields ((key, value) :: rest) ((key, value') :: rest')
  | kept {key : String} {value value' : Value} {rest rest' : Record} (first : Alike value value')
      (others : AlikeFields rest rest') :
      AlikeFields ((key, value) :: rest) ((key, value') :: rest')

end

/-- What two alike records may hold under one key. -/
def AlikeAt (key : String) (value value' : Value) : Prop := Sensitive key ∨ Alike value value'

variable {key : String} {value value' : Value} {items items' : List Value}
  {fields fields' newer newer' : Record}

theorem AlikeFields.cons (first : AlikeAt key value value') (others : AlikeFields fields fields') :
    AlikeFields ((key, value) :: fields) ((key, value') :: fields') :=
  first.elim (fun sensitive => .secret sensitive value value' others) fun h => .kept h others

theorem AlikeFields.refl (fields : Record) : AlikeFields fields fields := by
  induction fields with
  | nil => exact .nil
  | cons field rest ih => exact .kept (.same field.2) ih

/-! ## Taking the secrets out -/

theorem redactFields_secret (h : Sensitive key) (value value' : Value) (rest : Record) :
    redactFields ((key, value) :: rest) = redactFields ((key, value') :: rest) := by
  rw [redactFields, redactFields]
  split
  · rfl
  · rw [if_pos (isSensitive_iff.mpr h), if_pos (isSensitive_iff.mpr h)]

theorem redactFields_cons_congr {rest rest' : Record} (hvalue : redact value = redact value')
    (hrest : redactFields rest = redactFields rest') :
    redactFields ((key, value) :: rest) = redactFields ((key, value') :: rest') := by
  rw [redactFields, redactFields, hvalue, hrest]

mutual

/-- Nothing is left of what alike values differ in. -/
theorem Alike.redact_eq {value value' : Value} : Alike value value' → redact value = redact value'
  | .same _ => rfl
  | .list h => congrArg Value.list h.redactItems_eq
  | .record h => congrArg Value.record h.redactFields_eq

theorem AlikeItems.redactItems_eq {items items' : List Value} :
    AlikeItems items items' → redactItems items = redactItems items'
  | .nil => rfl
  | .cons first others => List.cons_eq_cons.mpr ⟨first.redact_eq, others.redactItems_eq⟩

theorem AlikeFields.redactFields_eq {fields fields' : Record} :
    AlikeFields fields fields' → redactFields fields = redactFields fields'
  | .nil => rfl
  | .secret sensitive value value' others =>
    (redactFields_secret sensitive value value' _).trans
      (redactFields_cons_congr rfl others.redactFields_eq)
  | .kept first others => redactFields_cons_congr first.redact_eq others.redactFields_eq

end

/-! ## Building records -/

theorem set_cons {old old' : Value} {k : String} (hat : AlikeAt key value value')
    (hold : AlikeAt k old old') (others : AlikeFields fields fields')
    (hset : AlikeFields (fields.set key value) (fields'.set key value')) :
    AlikeFields (Record.set ((k, old) :: fields) key value)
      (Record.set ((k, old') :: fields') key value') := by
  rw [Record.set, Record.set]
  split
  · rename_i heq
    subst heq
    exact .cons hat others
  · split
    · exact .cons hat (.cons hold others)
    · exact .cons hold hset

/-- Where a field is written does not depend on what the fields hold. -/
theorem AlikeFields.set {fields fields' : Record} (hat : AlikeAt key value value') :
    AlikeFields fields fields' → AlikeFields (fields.set key value) (fields'.set key value')
  | .nil => .cons hat .nil
  | .secret sensitive _ _ others => set_cons hat (.inl sensitive) others (others.set hat)
  | .kept first others => set_cons hat (.inr first) others (others.set hat)

theorem AlikeFields.merge {older older' newer newer' : Record} (h : AlikeFields older older') :
    AlikeFields newer newer' → AlikeFields (older.merge newer) (older'.merge newer')
  | .nil => h
  | .secret sensitive _ _ others => (h.set (.inl sensitive)).merge others
  | .kept first others => (h.set (.inr first)).merge others

theorem AlikeItems.indexed {items items' : List Value} (n : Nat) : AlikeItems items items' →
    AlikeFields ((items.zipIdx n).map fun (item, n) => (String.ofList (Decimal.digitsOf n), item))
      ((items'.zipIdx n).map fun (item, n) => (String.ofList (Decimal.digitsOf n), item))
  | .nil => .nil
  | .cons first others => .kept first (others.indexed (n + 1))

/-- Alike values are alike as records, whatever kind they are of. -/
theorem Alike.alikeFields (h : Alike value value') : AlikeFields value.fields value'.fields := by
  cases h with
  | same => exact .refl value.fields
  | list h => exact h.indexed 0
  | record h => exact h

theorem Alike.isPresent_eq (h : Alike value value') : value.isPresent = value'.isPresent := by
  cases h <;> rfl

theorem AlikeFields.isEmpty_eq (h : AlikeFields fields fields') :
    fields.isEmpty = fields'.isEmpty := by
  cases h <;> rfl

end Redaction
end Worksheet
