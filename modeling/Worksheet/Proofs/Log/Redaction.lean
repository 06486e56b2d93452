/-
What taking secrets out leaves of a value.

A value is looked at along paths: a step goes to the field under a key or to an item of a list.
Along a path whose keys are all open, that is neither sensitive nor unwritable, taking out secrets
commutes with following the path (`at?_redact`).  What `Redacts` says is read off the values at the
ends of such paths: the keys of each record and their order, the length of each list, every leaf,
and the mask under each sensitive key.  Since nothing is found where nothing was, that is all there
is to see of a value without its secrets.
-/
import Worksheet.Proofs.Log.Alike
import Worksheet.Proofs.Log.Notice

namespace Worksheet

/-! ## Paths -/

namespace Value

/-- A step into a value. -/
inductive Step where
  | field (key : String)
  | item (place : Nat)

def enter? : Value → Step → Option Value
  | record fields, .field key => Record.get? fields key
  | list items, .item place => items[place]?
  | _, _ => none

/-- What is at the end of a path. -/
def at? (value : Value) : List Step → Option Value
  | [] => some value
  | step :: path => (value.enter? step).bind fun part => part.at? path

theorem at?_append (value : Value) (path more : List Step) :
    value.at? (path ++ more) = (value.at? path).bind fun part => part.at? more := by
  induction path generalizing value with
  | nil => rfl
  | cons step path ih =>
    rw [List.cons_append, at?, at?]
    cases value.enter? step with
    | none => rfl
    | some part => exact ih part

/-- A value without parts. -/
def isLeaf : Value → Bool
  | list _ => false
  | record _ => false
  | _ => true

end Value

namespace Redaction

open Value (Step)

variable {value : Value} {path : List Step} {key : String}

/-- A step that does not go to a secret or to what is dropped. -/
def OpenStep (step : Step) : Prop := ∀ key, step = .field key → Open key

/-- No key on the path is sensitive or unwritable. -/
def OpenPath (path : List Step) : Prop := ∀ step ∈ path, OpenStep step

theorem redactItems_eq_map (items : List Value) : redactItems items = items.map redact := by
  induction items with
  | nil => rfl
  | cons item rest ih => rw [redactItems, ih, List.map_cons]

theorem redact_of_isLeaf (h : value.isLeaf = true) : redact value = value := by
  cases value with
  | list items => cases h
  | record fields => cases h
  | _ => rw [redact] <;> simp

/-- All keys are kept in their order, but for the one that cannot be written. -/
theorem keys_redactFields (fields : Record) :
    Record.keys (redactFields fields) = (Record.keys fields).filter (· ≠ unwritable) := by
  induction fields with
  | nil => rfl
  | cons field rest ih =>
    obtain ⟨name, held⟩ := field
    rw [redactFields, Record.keys_cons, List.filter_cons, ← ih]
    by_cases hname : name = unwritable
    · simp [hname]
    · by_cases hsensitive : isSensitive name <;> simp [hname, hsensitive, Record.keys_cons]

theorem not_sensitive_unwritable : ¬ Sensitive unwritable :=
  fun h => absurd (isSensitive_iff.mpr h) (by decide +kernel)

theorem get?_redactFields_of_sensitive {fields : Record} (hsensitive : Sensitive key)
    (hmem : key ∈ Record.keys fields) : Record.get? (redactFields fields) key = some mask := by
  have hwritable : key ≠ unwritable := fun heq => not_sensitive_unwritable (heq ▸ hsensitive)
  induction fields with
  | nil => exact absurd hmem List.not_mem_nil
  | cons field rest ih =>
    obtain ⟨name, held⟩ := field
    rw [redactFields]
    by_cases hname : key = name
    · subst hname
      rw [if_neg hwritable, if_pos (isSensitive_iff.mpr hsensitive), Record.get?_cons, if_pos rfl]
    · have hrest := ih ((List.mem_cons.mp hmem).resolve_left hname)
      split
      · exact hrest
      · split <;> rw [Record.get?_cons, if_neg hname, hrest]

/-! ## Following a path -/

theorem enter?_redact {step : Step} (h : OpenStep step) (value : Value) :
    (redact value).enter? step = (value.enter? step).map redact := by
  cases step with
  | field key =>
    cases value with
    | record fields => exact get?_redactFields (h key rfl)
    | _ => rfl
  | item place =>
    cases value with
    | list items =>
      rw [redact, redactItems_eq_map]
      exact List.getElem?_map
    | _ => rfl

theorem at?_redact (h : OpenPath path) (value : Value) :
    (redact value).at? path = (value.at? path).map redact := by
  induction path generalizing value with
  | nil => rfl
  | cons step path ih =>
    obtain ⟨hstep, hpath⟩ := List.forall_mem_cons.mp h
    rw [Value.at?, Value.at?, enter?_redact hstep]
    cases value.enter? step with
    | none => rfl
    | some part => exact ih hpath part

theorem at?_redact_of_eq_some {part : Value} (h : OpenPath path)
    (hpart : value.at? path = some part) : (redact value).at? path = some (redact part) := by
  rw [at?_redact h, hpart, Option.map_some]

/-! ## What is left -/

/-- What is shown of a value without its secrets.  Above each level there are only open keys. -/
structure Redacts (value shown : Value) : Prop where
  /-- A record has its keys in their order, without the one that cannot be written. -/
  keys : ∀ path fields, OpenPath path → value.at? path = some (.record fields) →
    ∃ fields', shown.at? path = some (.record fields') ∧
      Record.keys fields' = (Record.keys fields).filter (· ≠ "__proto__")
  length : ∀ path items, OpenPath path → value.at? path = some (.list items) →
    ∃ items', shown.at? path = some (.list items') ∧ items'.length = items.length
  leaf : ∀ path leaf, OpenPath path → leaf.isLeaf = true → value.at? path = some leaf →
    shown.at? path = some leaf
  /-- A sensitive key shows the mask, whatever it holds. -/
  secret : ∀ path fields key, OpenPath path → Sensitive key →
    value.at? path = some (.record fields) → key ∈ Record.keys fields →
    shown.at? (path ++ [.field key]) = some (.string "[REDACTED]")
  /-- Nothing is shown where nothing was. -/
  nothing : ∀ path, OpenPath path → value.at? path = none → shown.at? path = none

theorem redacts_redact (value : Value) : Redacts value (redact value) where
  keys path fields hpath hfields :=
    ⟨redactFields fields, at?_redact_of_eq_some hpath hfields, keys_redactFields fields⟩
  length path items hpath hitems := by
    refine ⟨redactItems items, at?_redact_of_eq_some hpath hitems, ?_⟩
    rw [redactItems_eq_map, List.length_map]
  leaf path leaf hpath hleaf hvalue := by
    rw [at?_redact_of_eq_some hpath hvalue, redact_of_isLeaf hleaf]
  secret path fields key hpath hsensitive hfields hmem := by
    rw [Value.at?_append, at?_redact_of_eq_some hpath hfields]
    show (Record.get? (redactFields fields) key).bind _ = _
    rw [get?_redactFields_of_sensitive hsensitive hmem]
    rfl
  nothing path hpath hvalue := by
    rw [at?_redact hpath, hvalue]
    rfl

end Redaction

/-! ## Entries -/

namespace Logger

open Redaction (Redacts redacts_redact)

/-- How a logger shows a record: without its secrets, or as it is if it is told not to care. -/
def Shows (logger : Logger) (fields : Record) (shown : Value) : Prop :=
  if logger.config.sanitize then Redacts (.record fields) shown else shown = .record fields

theorem shows_shown (logger : Logger) (fields : Record) :
    logger.Shows fields (logger.shown (.record fields)) := by
  unfold Shows shown
  split
  · exact redacts_redact (.record fields)
  · rfl

/-- The metadata and the context of an entry are shown without their secrets and are otherwise
complete; a logger that does not take out secrets shows them as they are. -/
theorem entry_shows (logger : Logger) (host : Host) (level : Level) (message : String)
    (metadata : Record) (failure : Option Failure) :
    (∃ shown, (logger.entry host level message (.record metadata) failure).metadata = some shown ∧
      logger.Shows metadata shown) ∧
    if logger.config.showContext = true ∧ logger.context ≠ [] then
      ∃ shown, (logger.entry host level message (.record metadata) failure).context = some shown ∧
        logger.Shows logger.context shown
    else (logger.entry host level message (.record metadata) failure).context = none := by
  refine ⟨⟨_, rfl, logger.shows_shown metadata⟩, ?_⟩
  show if _ then ∃ shown, logger.shownContext = some shown ∧ _ else logger.shownContext = none
  have hfilled : ¬ logger.context.isEmpty ↔ logger.context ≠ [] := by
    rw [List.isEmpty_iff]
  rw [shownContext]
  simp only [hfilled]
  split
  · exact ⟨_, rfl, logger.shows_shown logger.context⟩
  · rfl

end Logger
end Worksheet
