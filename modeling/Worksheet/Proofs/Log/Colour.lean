/-
Colours are decoration.

The form for people is written part by part, and each part is the same whether there are colours or
not, but for the sequences around it.  So one text decorates the other (`pretty_decorates`, for any
two palettes of which one decorates the other), and deleting the sequences from a text leaves the
text that it decorates (`strip_of_decorated`).  That needs texts without the character that starts a
sequence; JSON escapes it, so only what is shown as it is matters.

There is one thing more in the table of colours than colours.  Twelve names that are no level find a
text there that is no sequence and stays when the sequences are deleted: for these levels, and for
no others, the text with colours says more than the text without.
-/
import Worksheet.Proofs.Json.Line
import Worksheet.Log.Logger

namespace Worksheet
namespace Layout

/-! ## Deleting sequences -/

/-- The character that starts a sequence. -/
def mark : Char := '\x1b'

/-- What comes behind the sequence that a text starts with, if it starts with one. -/
def behindSequence? : List Char → Option (List Char)
  | '\x1b' :: '[' :: rest =>
    match rest.takeWhile Char.isDigit, rest.dropWhile Char.isDigit with
    | _ :: _, 'm' :: after => some after
    | _, _ => none
  | _ => none

theorem length_behindSequence? {text after : List Char} (h : behindSequence? text = some after) :
    after.length < text.length := by
  unfold behindSequence? at h
  split at h
  · rename_i rest
    split at h
    · rename_i hdrop
      have hless := (List.dropWhile_sublist (l := rest) Char.isDigit).length_le
      rw [hdrop, Option.some.inj h, List.length_cons] at hless
      simp only [List.length_cons]
      omega
    · cases h
  · cases h

/-- The text without its sequences. -/
def strip : List Char → List Char
  | [] => []
  | c :: rest =>
    match _h : behindSequence? (c :: rest) with
    | some after => strip after
    | none => c :: strip rest
termination_by text => text.length
decreasing_by
  · exact length_behindSequence? _h
  · exact Nat.lt_succ_self _

/-! ## Decorated texts -/

/-- The first text is the second one with sequences put in between its characters. -/
inductive Decorated : List Char → List Char → Prop
  | nil : Decorated [] []
  | char {c : Char} {text plain : List Char} (hc : c ≠ mark) (h : Decorated text plain) :
      Decorated (c :: text) (c :: plain)
  | sequence {digits text plain : List Char} (hne : digits ≠ [])
      (hdigits : ∀ c ∈ digits, c.isDigit = true) (h : Decorated text plain) :
      Decorated (mark :: '[' :: (digits ++ 'm' :: text)) plain

variable {text more plain rest : List Char}

theorem Decorated.append (h : Decorated text plain) (hmore : Decorated more rest) :
    Decorated (text ++ more) (plain ++ rest) := by
  induction h with
  | nil => exact hmore
  | char hc _ ih => exact .char hc ih
  | sequence hne hdigits _ ih =>
    rw [List.cons_append, List.cons_append, List.append_assoc, List.cons_append]
    exact .sequence hne hdigits ih

theorem Decorated.mark_not_mem (h : Decorated text plain) : mark ∉ plain := by
  induction h with
  | nil => exact List.not_mem_nil
  | char hc _ ih => exact fun hmem => (List.mem_cons.mp hmem).elim (fun heq => hc heq.symm) ih
  | sequence _ _ _ ih => exact ih

theorem decorated_self (h : mark ∉ text) : Decorated text text := by
  induction text with
  | nil => exact .nil
  | cons c text ih =>
    exact .char (fun heq => h (heq ▸ List.mem_cons_self)) (ih (List.not_mem_of_not_mem_cons h))

theorem behindSequence?_of_ne_mark {c : Char} (hc : c ≠ mark) (text : List Char) :
    behindSequence? (c :: text) = none := by
  unfold behindSequence?
  split
  · rename_i heq
    exact absurd (List.cons.inj heq).1 hc
  · rfl

theorem behindSequence?_sequence {digits : List Char} (hne : digits ≠ [])
    (hdigits : ∀ c ∈ digits, c.isDigit = true) (text : List Char) :
    behindSequence? (mark :: '[' :: (digits ++ 'm' :: text)) = some text := by
  have hm : ¬ Char.isDigit 'm' = true := by decide
  have htake : (digits ++ 'm' :: text).takeWhile Char.isDigit = digits := by
    rw [List.takeWhile_append_of_pos hdigits, List.takeWhile_cons_of_neg hm, List.append_nil]
  have hdrop : (digits ++ 'm' :: text).dropWhile Char.isDigit = 'm' :: text := by
    rw [List.dropWhile_append_of_pos hdigits, List.dropWhile_cons_of_neg hm]
  simp only [mark, behindSequence?, htake, hdrop]
  cases digits with
  | nil => exact absurd rfl hne
  | cons digit digits => rfl

/-- Nothing but the sequences is deleted, and all of them are. -/
theorem strip_of_decorated (h : Decorated text plain) : strip text = plain := by
  induction h with
  | nil => rw [strip]
  | @char c text plain hc _ ih =>
    rw [strip]
    split
    · rename_i hbehind
      rw [behindSequence?_of_ne_mark hc] at hbehind
      cases hbehind
    · rw [ih]
  | @sequence digits text plain hne hdigits _ ih =>
    rw [strip]
    split
    · rename_i hbehind
      rw [behindSequence?_sequence hne hdigits] at hbehind
      rw [← Option.some.inj hbehind, ih]
    · rename_i hbehind
      rw [behindSequence?_sequence hne hdigits] at hbehind
      cases hbehind

end Layout

/-! ## Texts without the character -/

/-- No text inside the value has the character that starts a sequence. -/
inductive Value.Unmarked : Value → Prop
  | absent : Value.Unmarked .absent
  | null : Value.Unmarked .null
  | boolean (b : Bool) : Value.Unmarked (.boolean b)
  | number (x : Binary64) : Value.Unmarked (.number x)
  | string {s : String} (h : Layout.mark ∉ s.toList) : Value.Unmarked (.string s)
  | half (half : Half) : Value.Unmarked (.half half)
  | list {items : List Value} (h : ∀ item ∈ items, item.Unmarked) : Value.Unmarked (.list items)
  | record {fields : Record} (h : ∀ field ∈ fields, field.2.Unmarked) :
      Value.Unmarked (.record fields)

namespace Layout

theorem unmarked_string {s : String} (h : (s.toList.all fun c => c ≠ mark) = true) :
    (Value.string s).Unmarked :=
  .string fun hmem => of_decide_eq_true (List.all_eq_true.mp h mark hmem) rfl

theorem mark_not_mem_of_clear {style : Json.Style} {text : List Char} (h : Json.Clear style text) :
    mark ∉ text := by
  intro hmem
  rcases h mark hmem with hle | ⟨hline, -⟩
  · exact absurd hle (by decide)
  · exact absurd hline (by decide)

theorem mark_not_mem_render (style : Json.Style) (value : Value) :
    mark ∉ (Json.render style value).toList := by
  rw [Json.render, String.toList_ofList]
  exact mark_not_mem_of_clear (Json.clear_print style (Json.normal value))

theorem mark_not_mem_intercalate {separator : String} (hseparator : mark ∉ separator.toList)
    {parts : List String} (h : ∀ part ∈ parts, mark ∉ part.toList) :
    mark ∉ (separator.intercalate parts).toList := by
  rw [String.toList_intercalate]
  induction parts with
  | nil => exact List.not_mem_nil
  | cons part rest ih =>
    obtain ⟨hpart, hrest⟩ := List.forall_mem_cons.mp h
    cases rest with
    | nil => simpa [List.intercalate] using hpart
    | cons next rest =>
      rw [List.map_cons, List.map_cons, List.intercalate_cons_cons, List.mem_append,
        List.mem_append, not_or, not_or]
      exact ⟨⟨hpart, hseparator⟩, ih hrest⟩

theorem displayItems_cons (item : Value) (rest : List Value) :
    ∃ first, Value.displayItems (item :: rest) = first :: Value.displayItems rest ∧
      (first = "" ∨ first = item.display) := by
  cases item with
  | absent => exact ⟨_, rfl, .inl rfl⟩
  | null => exact ⟨_, rfl, .inl rfl⟩
  | _ => exact ⟨_, rfl, .inr rfl⟩

theorem mark_not_mem_displayItems {items : List Value}
    (h : ∀ item ∈ items, mark ∉ item.display.toList) :
    ∀ part ∈ Value.displayItems items, mark ∉ part.toList := by
  induction items with
  | nil => exact fun _ hpart => absurd hpart List.not_mem_nil
  | cons item rest ih =>
    obtain ⟨hitem, hrest⟩ := List.forall_mem_cons.mp h
    obtain ⟨first, hitems, hfirst⟩ := displayItems_cons item rest
    rw [hitems]
    refine List.forall_mem_cons.mpr ⟨?_, ih hrest⟩
    rcases hfirst with rfl | rfl
    · exact List.not_mem_nil
    · exact hitem

theorem mark_not_mem_display {value : Value} (h : value.Unmarked) :
    mark ∉ value.display.toList := by
  induction h with
  | absent => decide
  | null => decide
  | boolean b => cases b <;> decide
  | number x =>
    have hclear : Json.Clear .compact x.textChars := Json.clear_textChars x
    rw [Value.display, Binary64.text, String.toList_ofList]
    exact mark_not_mem_of_clear hclear
  | string h => exact h
  | half half =>
    show mark ∉ (String.singleton Half.replacement).toList
    decide
  | list _ ih => exact mark_not_mem_intercalate (by decide) (mark_not_mem_displayItems ih)
  | record _ _ =>
    show mark ∉ "[object Object]".toList
    decide

theorem unmarked_field {value : Value} (h : value.Unmarked) (key : String) :
    (value.field key).Unmarked := by
  cases h with
  | @record fields h =>
    rw [Value.field]
    cases hget : Record.get? fields key with
    | none => exact .absent
    | some held => exact h (key, held) (Record.mem_of_lookup_eq_some hget)
  | _ => exact .absent

/-! ## Palettes -/

/-- The second text with sequences put in between its characters is the first one. -/
def Decorates (text plain : String) : Prop := Decorated text.toList plain.toList

theorem Decorates.append {text more plain rest : String} (h : Decorates text plain)
    (hmore : Decorates more rest) : Decorates (text ++ more) (plain ++ rest) := by
  rw [Decorates, String.toList_append, String.toList_append]
  exact Decorated.append h hmore

theorem decorates_self {text : String} (h : mark ∉ text.toList) : Decorates text text :=
  decorated_self h

theorem decorates_escape {code : String} (hne : code.toList ≠ [])
    (hdigits : ∀ c ∈ code.toList, c.isDigit = true) : Decorates (escape code) "" := by
  have htext : (escape code).toList = mark :: '[' :: (code.toList ++ 'm' :: []) := by
    rw [escape, String.toList_append, String.toList_append]
    rfl
  rw [Decorates, htext]
  exact .sequence hne hdigits .nil

theorem decorates_field {value : Value} (h : value.Unmarked) (key : String) :
    Decorates (value.field key).display (value.field key).display :=
  decorates_self (mark_not_mem_display (unmarked_field h key))

/-- What one palette puts into a text is what the other one does, decorated. -/
structure Palette.Decorates (palette plain : Palette) : Prop where
  level : ∀ level, Layout.Decorates (palette.level level) (plain.level level)
  dim : Layout.Decorates palette.dim plain.dim
  reset : Layout.Decorates palette.reset plain.reset

/-- The text that stays in front of a level when the sequences are deleted. -/
def residue (level : String) : String := (reserved.lookup level).getD ""

/-- What is left of the colours when the sequences are deleted. -/
def uncoloured : Palette := ⟨residue, "", ""⟩

theorem plain_decorates_plain : plain.Decorates plain where
  level _ := .nil
  dim := .nil
  reset := .nil

theorem mark_not_mem_builtIn {name : String} (h : mark ∉ name.toList) :
    mark ∉ (builtIn name).toList := by
  have hfront : mark ∉ "function ".toList := by decide
  have hback : mark ∉ "() \x7b [native code] \x7d".toList := by decide
  rw [builtIn, String.toList_append, String.toList_append]
  exact List.not_mem_append (List.not_mem_append hfront h) hback

theorem mark_not_mem_of_mem_reserved {entry : String × String} (h : entry ∈ reserved) :
    mark ∉ entry.2.toList := by
  rcases List.mem_append.mp h with hself | hnamed
  · simp only [List.mem_cons, List.not_mem_nil, or_false] at hself
    rcases hself with rfl | rfl
    · exact mark_not_mem_builtIn (by decide)
    · decide
  · obtain ⟨name, hname, rfl⟩ := List.mem_map.mp hnamed
    refine mark_not_mem_builtIn ?_
    revert name
    decide

theorem mark_not_mem_residue (level : String) : mark ∉ (residue level).toList := by
  unfold residue
  cases hlookup : reserved.lookup level with
  | none => exact List.not_mem_nil
  | some text => exact mark_not_mem_of_mem_reserved (Record.mem_of_lookup_eq_some hlookup)

theorem levelColour_decorates (level : String) : Decorates (levelColour level) (residue level) := by
  have hall : ∀ entry ∈ levelCodes, entry.2.toList ≠ [] ∧
      (entry.2.toList.all Char.isDigit) = true ∧ residue entry.1 = "" := by decide
  unfold levelColour
  cases hlookup : levelCodes.lookup level with
  | none => exact decorates_self (mark_not_mem_residue level)
  | some code =>
    obtain ⟨hne, hdigits, hresidue⟩ := hall (level, code) (Record.mem_of_lookup_eq_some hlookup)
    rw [hresidue]
    exact decorates_escape hne (List.all_eq_true.mp hdigits)

theorem coloured_decorates_uncoloured : coloured.Decorates uncoloured where
  level := levelColour_decorates
  dim := decorates_escape (by decide) (List.all_eq_true.mp (by decide))
  reset := decorates_escape (by decide) (List.all_eq_true.mp (by decide))

/-! ## The form for people -/

section

variable {palette plain : Palette} (h : palette.Decorates plain) {entry : Value}
  (hentry : entry.Unmarked)

include h

theorem contextText_decorates (context : Value) :
    Decorates (contextText palette context) (contextText plain context) := by
  unfold contextText
  split
  · exact .nil
  · exact (((decorates_self (by decide)).append h.dim).append
      (decorates_self (mark_not_mem_render _ context))).append h.reset

theorem metadataText_decorates (metadata : Value) :
    Decorates (metadataText palette metadata) (metadataText plain metadata) := by
  unfold metadataText
  split
  · exact ((((decorates_self (by decide)).append h.dim).append
      (decorates_self (by decide))).append
      (decorates_self (mark_not_mem_render _ metadata))).append h.reset
  · exact .nil

include hentry

theorem stackText_decorates : Decorates (stackText palette entry) (stackText plain entry) := by
  unfold stackText
  split
  · exact (((decorates_self (by decide)).append h.dim).append
      (decorates_self (mark_not_mem_display hentry))).append h.reset
  · exact .nil

theorem errorText_decorates : Decorates (errorText palette entry) (errorText plain entry) := by
  have hname := decorates_field hentry "name"
  have hmessage := decorates_field hentry "message"
  have hstack := stackText_decorates h (unmarked_field hentry "stack")
  unfold errorText
  split
  · exact (((((((decorates_self (by decide)).append (h.level _)).append
      (decorates_self (by decide))).append hname).append
      (decorates_self (by decide))).append hmessage).append h.reset).append hstack
  · exact .nil

/-- Part by part, the form for people differs in what the palettes put into it. -/
theorem pretty_decorates {timeText : Value → String}
    (hplain : ∀ timestamp, mark ∉ (timeText timestamp).toList) :
    Decorates (pretty timeText palette entry) (pretty timeText plain entry) := by
  have htime := decorates_self (hplain (entry.field "timestamp"))
  have hblank : Decorates " " " " := decorates_self (by decide)
  have hlevel := decorates_field hentry "level"
  have hmessage := decorates_field hentry "message"
  have hcontext := contextText_decorates h (entry.field "context")
  have hmetadata := metadataText_decorates h (entry.field "metadata")
  have herror := errorText_decorates h (unmarked_field hentry "error")
  unfold pretty
  exact ((((((((((htime.append hblank).append (h.level _)).append
    (decorates_self (by decide))).append hlevel).append
    (decorates_self (by decide))).append h.reset).append hblank).append hmessage).append
    hcontext).append hmetadata).append herror

end

section

variable (timeText : Value → String)

/-- Palettes that put nothing but a text in front of the level differ in that text only. -/
theorem exists_pretty_eq (entry : Value) : ∃ front back, ∀ palette : Palette,
    palette.dim = "" → palette.reset = "" → palette.level "ERROR" = "" →
      pretty timeText palette entry =
        front ++ palette.level (entry.field "level").display ++ back := by
  refine ⟨timeText (entry.field "timestamp") ++ " ", "[" ++ (entry.field "level").display ++ "]" ++
    " " ++ (entry.field "message").display ++ contextText plain (entry.field "context") ++
    metadataText plain (entry.field "metadata") ++ errorText plain (entry.field "error"), ?_⟩
  intro palette hdim hreset herror
  have hcontext : ∀ value, contextText palette value = contextText plain value := by
    intro value
    rw [contextText, contextText, hdim, hreset]
    rfl
  have hmetadata : ∀ value, metadataText palette value = metadataText plain value := by
    intro value
    rw [metadataText, metadataText, hdim, hreset]
    rfl
  have herrorText : ∀ value, errorText palette value = errorText plain value := by
    intro value
    rw [errorText, errorText, stackText, stackText, hdim, hreset, herror]
    rfl
  unfold pretty
  rw [hcontext, hmetadata, herrorText, hreset]
  simp only [String.append_assoc, String.empty_append]

omit timeText in
theorem residue_eq_empty_iff {level : String} :
    residue level = "" ↔ level ∉ reserved.map Prod.fst := by
  have hall : ∀ entry ∈ reserved, entry.2 ≠ "" := by decide
  unfold residue
  cases hlookup : reserved.lookup level with
  | none =>
    refine iff_of_true rfl fun hmem => ?_
    obtain ⟨entry, hentry, rfl⟩ := List.mem_map.mp hmem
    exact bne_iff_ne.mp (List.lookup_eq_none_iff.mp hlookup entry hentry) rfl
  | some text =>
    have hmem := Record.mem_of_lookup_eq_some hlookup
    exact iff_of_false (hall _ hmem) fun hnot => hnot (List.mem_map_of_mem hmem)

theorem pretty_uncoloured_eq_iff (entry : Value) :
    pretty timeText uncoloured entry = pretty timeText plain entry ↔
      (entry.field "level").display ∉ reserved.map Prod.fst := by
  obtain ⟨front, back, hpretty⟩ := exists_pretty_eq timeText entry
  have herror : residue "ERROR" = "" := by decide
  rw [hpretty uncoloured rfl rfl herror, hpretty plain rfl rfl rfl, ← residue_eq_empty_iff,
    String.append_left_inj, String.append_right_inj]
  rfl

end

section

variable {timeText : Value → String} (hplain : ∀ timestamp, mark ∉ (timeText timestamp).toList)
  {entry : Value} (hentry : entry.Unmarked)

include hplain hentry

/-- Deleting the sequences gives the text without colours exactly if the level is none of the names
that the table of colours keeps for itself. -/
theorem strip_coloured_eq_iff :
    strip (pretty timeText coloured entry).toList = (pretty timeText plain entry).toList ↔
      (entry.field "level").display ∉ reserved.map Prod.fst := by
  rw [strip_of_decorated (pretty_decorates coloured_decorates_uncoloured hentry hplain),
    String.toList_inj, pretty_uncoloured_eq_iff]

theorem mark_not_mem_plain : mark ∉ (pretty timeText plain entry).toList :=
  (pretty_decorates plain_decorates_plain hentry hplain).mark_not_mem

end

end Layout

namespace Logger

open Layout

theorem colours_eq_true_iff (host : Host) :
    host.colours = true ↔ (host.environment.get? "NO_COLOR").getD "" = "" := by
  unfold Host.colours
  split
  · rename_i heq
    rw [heq, Option.getD_some, decide_eq_true_iff]
  · rename_i heq
    rw [heq]
    exact iff_of_true rfl rfl

/-- Where the environment asks for no colours, the form for people has no sequences, and elsewhere
it becomes that text when they are deleted, unless the level is one of the twelve names that the
table of colours keeps for itself: then it does not. -/
theorem strip_textOf {logger : Logger} (hformat : logger.config.format = .pretty) {entry : Value}
    (hentry : entry.Unmarked) {dull bright : Host} (hruntime : bright.runtime = dull.runtime)
    (hdull : (dull.environment.get? "NO_COLOR").getD "" ≠ "")
    (hbright : (bright.environment.get? "NO_COLOR").getD "" = "") :
    mark ∉ (logger.textOf dull entry).toList ∧
      (strip (logger.textOf bright entry).toList = (logger.textOf dull entry).toList ↔
        (entry.field "level").display ∉ reserved.map Prod.fst) := by
  have htext : logger.textOf dull entry = pretty dull.runtime.timeText plain entry := by
    have hcolours : dull.colours = false :=
      Bool.not_eq_true _ ▸ fun h => hdull ((colours_eq_true_iff dull).mp h)
    rw [textOf, hformat, hcolours]
    rfl
  have hcoloured : logger.textOf bright entry =
      pretty dull.runtime.timeText coloured entry := by
    rw [textOf, hformat, hruntime, (colours_eq_true_iff bright).mpr hbright]
    rfl
  have hplain := dull.runtime.escape_not_mem
  rw [htext, hcoloured]
  exact ⟨mark_not_mem_plain hplain hentry, strip_coloured_eq_iff hplain hentry⟩

/-- An entry with all its parts: a message that looks like the rest of a sequence, a context,
metadata over several lines, and an error with a stack. -/
theorem strip_textOf_failure :
    let bright : Host := ⟨"host", 1, 0, [("NO_COLOR", "")], 0, 0⟩
    let dull : Host := ⟨"host", 1, 0, [("NO_COLOR", "1")], 0, 0⟩
    let logger : Logger := ⟨⟨Level.info.value, .pretty, false, true, true, "sheets", none⟩, [], 0⟩
    let entry : Value := .record [("timestamp", .string "2024-01-02T15:04:05.678Z"),
      ("level", .string "ERROR"), ("message", .string "[31m"),
      ("context", .record [("cell", .string "A1")]),
      ("metadata", .record [("rows", .list [.null])]),
      ("error", .record [("name", .string "Error"), ("message", .string "m"),
        ("stack", .string "Error: m")])]
    logger.config.format = .pretty ∧ entry.Unmarked ∧ bright.runtime = dull.runtime ∧
      (dull.environment.get? "NO_COLOR").getD "" ≠ "" ∧
      (bright.environment.get? "NO_COLOR").getD "" = "" ∧
      mark ∉ (logger.textOf dull entry).toList ∧
      strip (logger.textOf bright entry).toList = (logger.textOf dull entry).toList := by
  intro bright dull logger entry
  have hdull : (dull.environment.get? "NO_COLOR").getD "" ≠ "" := by decide
  have hbright : (bright.environment.get? "NO_COLOR").getD "" = "" := by decide
  have hlevel : (entry.field "level").display ∉ reserved.map Prod.fst := by decide
  have hlast : ∀ {P : String × Value → Prop}, ∀ field ∈ ([] : Record), P field :=
    fun _ hfield => absurd hfield List.not_mem_nil
  have hcontext : (Value.record [("cell", .string "A1")]).Unmarked :=
    .record (List.forall_mem_singleton.mpr (unmarked_string (by decide)))
  have hmetadata : (Value.record [("rows", .list [.null])]).Unmarked :=
    .record (List.forall_mem_singleton.mpr (.list (List.forall_mem_singleton.mpr .null)))
  have herror : (Value.record [("name", .string "Error"), ("message", .string "m"),
      ("stack", .string "Error: m")]).Unmarked := by
    refine .record ?_
    simp only [List.forall_mem_cons]
    exact ⟨unmarked_string (by decide), unmarked_string (by decide),
      unmarked_string (by decide), hlast⟩
  have hentry : entry.Unmarked := by
    refine .record ?_
    simp only [List.forall_mem_cons]
    exact ⟨unmarked_string (by decide), unmarked_string (by decide),
      unmarked_string (by decide), hcontext, hmetadata, herror, hlast⟩
  have hformat : logger.config.format = .pretty := rfl
  have hruntime : bright.runtime = dull.runtime := rfl
  obtain ⟨hmark, hstrip⟩ := strip_textOf hformat hentry hruntime hdull hbright
  exact ⟨hformat, hentry, hruntime, hdull, hbright, hmark, hstrip.mpr hlevel⟩

/-- A level that is no colour's name and yet leaves a text behind. -/
theorem strip_textOf_toString :
    let bright : Host := ⟨"host", 1, 0, [], 0, 0⟩
    let dull : Host := ⟨"host", 1, 0, [("NO_COLOR", "1")], 0, 0⟩
    let logger : Logger := ⟨⟨Level.info.value, .pretty, false, true, true, "sheets", none⟩, [], 0⟩
    let entry : Value := .record [("timestamp", .string "2024-01-02T15:04:05.678Z"),
      ("level", .string "toString"), ("message", .string "ready"), ("service", .string "gridcalc"),
      ("hostname", .string "localhost"), ("pid", .number 1)]
    entry.Unmarked ∧
      strip (logger.textOf bright entry).toList ≠ (logger.textOf dull entry).toList := by
  intro bright dull logger entry
  have hentry : entry.Unmarked := by
    refine .record ?_
    simp only [List.forall_mem_cons]
    exact ⟨unmarked_string (by decide), unmarked_string (by decide),
      unmarked_string (by decide), unmarked_string (by decide),
      unmarked_string (by decide), .number 1,
      fun _ hfield => absurd hfield List.not_mem_nil⟩
  have hkept : (entry.field "level").display ∈ reserved.map Prod.fst := by decide
  exact ⟨hentry, fun heq =>
    (strip_coloured_eq_iff bright.runtime.escape_not_mem hentry).mp heq hkept⟩

end Logger
end Worksheet
