/-
JSON text is read back as what was printed.

`parse_render` is about every value and every layout: reading the text of a value gives what JSON
can say of it, with the fields of each record written one after the other.  A part of the text is
read in front of anything that cannot go on with a number (`Reads`), and the induction is on what
can be said: the items of a list and the fields of a record are read if each of them is.
-/
import Worksheet.Proofs.Binary64.Shortest
import Worksheet.Proofs.Json.Quoted

namespace Worksheet
namespace Json

open Decimal (Ends)

/-! ## What can be said, and what is read of it -/

/-- A value that is printed as it is. -/
inductive Sayable : Value → Prop
  | null : Sayable .null
  | boolean (b : Bool) : Sayable (.boolean b)
  | number {negative : Bool} {units : Nat} {fits : Binary64.Fits units}
      (h : Binary64.finite negative units fits ≠ .zero true) :
      Sayable (.number (.finite negative units fits))
  | string (s : String) : Sayable (.string s)
  | half (half : Half) : Sayable (.half half)
  | list {items : List Value} (h : ∀ item ∈ items, Sayable item) : Sayable (.list items)
  | record {fields : Record} (h : ∀ field ∈ fields, Sayable field.2) : Sayable (.record fields)

theorem sayable_normalNumber (x : Binary64) : Sayable (normalNumber x) := by
  unfold normalNumber
  split
  · exact .null
  · exact .null
  · split
    · exact .number (by decide)
    · rename_i negative units fits hne
      refine .number fun heq => ?_
      injection heq with _ hunits
      exact hne hunits

mutual

theorem sayable_normal : ∀ value : Value, Sayable (normal value)
  | .absent => .null
  | .null => .null
  | .boolean b => .boolean b
  | .number x => sayable_normalNumber x
  | .string s => .string s
  | .half half => .half half
  | .list items => .list (sayable_normalItems items)
  | .record fields => .record (sayable_normalFields fields)

theorem sayable_normalItems : ∀ items : List Value, ∀ item ∈ normalItems items, Sayable item
  | [] => fun _ hitem => absurd hitem List.not_mem_nil
  | item :: rest => List.forall_mem_cons.mpr ⟨sayable_normal item, sayable_normalItems rest⟩

theorem sayable_normalFields :
    ∀ fields : Record, ∀ field ∈ normalFields fields, Sayable field.2
  | [] => fun _ hfield => absurd hfield List.not_mem_nil
  | (key, value) :: rest => by
    have hvalue := sayable_normal value
    have hrest := sayable_normalFields rest
    cases value with
    | absent => exact hrest
    | _ => exact List.forall_mem_cons.mpr ⟨hvalue, hrest⟩

end

mutual

/-- What is read of the text of a value: half of a character becomes a mark, and the fields of a
record are written one after the other. -/
def reread : Value → Value
  | .half _ => .string (String.singleton Half.replacement)
  | .list items => .list (rereadItems items)
  | .record fields => .record (Record.ofFields (rereadFields fields))
  | value => value

def rereadItems : List Value → List Value
  | [] => []
  | item :: rest => reread item :: rereadItems rest

def rereadFields : List (String × Value) → List (String × Value)
  | [] => []
  | (key, value) :: rest => (key, reread value) :: rereadFields rest

end

/-! ## Blanks -/

def Blanks (text : List Char) : Prop := ∀ c ∈ text, isBlank c = true

theorem blanks_lineStart (depth : Nat) : Blanks (Style.lineStart depth) := by
  intro c hc
  rcases List.mem_cons.mp hc with hline | hspace
  · rw [hline]
    rfl
  · rw [List.eq_of_mem_replicate hspace]
    rfl

theorem blanks_first (style : Style) : Blanks style.first := by
  cases style with
  | compact => exact fun c hc => absurd hc List.not_mem_nil
  | indented depth => exact blanks_lineStart (depth + 1)

theorem blanks_last (style : Style) : Blanks style.last := by
  cases style with
  | compact => exact fun c hc => absurd hc List.not_mem_nil
  | indented depth => exact blanks_lineStart depth

theorem exists_colon (style : Style) : ∃ blanks, style.colon = ':' :: blanks ∧ Blanks blanks := by
  cases style with
  | compact => exact ⟨[], rfl, fun c hc => absurd hc List.not_mem_nil⟩
  | indented depth => exact ⟨[' '], rfl, fun c hc => List.mem_singleton.mp hc ▸ rfl⟩

variable {fuel : Nat} {text blanks rest : List Char}

theorem skipBlanks_append (h : Blanks blanks) (text : List Char) :
    skipBlanks (blanks ++ text) = skipBlanks text := List.dropWhile_append_of_pos h

theorem skipBlanks_cons {c : Char} (h : isBlank c = false) (text : List Char) :
    skipBlanks (c :: text) = c :: text := List.dropWhile_cons_of_neg (by simp [h])

theorem skipBlanks_skipBlanks (text : List Char) :
    skipBlanks (skipBlanks text) = skipBlanks text := by
  induction text with
  | nil => rfl
  | cons c text ih =>
    cases hc : isBlank c with
    | true =>
      have hskip : skipBlanks (c :: text) = skipBlanks text := List.dropWhile_cons_of_pos hc
      rw [hskip, ih]
    | false => rw [skipBlanks_cons hc, skipBlanks_cons hc]

theorem readValue_skipBlanks (fuel : Nat) (text : List Char) :
    readValue fuel (skipBlanks text) = readValue fuel text := by
  cases fuel with
  | zero => rfl
  | succ fuel => rw [readValue, readValue, skipBlanks_skipBlanks]

theorem readValue_append (h : Blanks blanks) (fuel : Nat) (text : List Char) :
    readValue fuel (blanks ++ text) = readValue fuel text := by
  rw [← readValue_skipBlanks fuel (blanks ++ text), skipBlanks_append h, readValue_skipBlanks]

theorem readItems_skipBlanks (fuel : Nat) (text : List Char) :
    readItems fuel (skipBlanks text) = readItems fuel text := by
  cases fuel with
  | zero => rfl
  | succ fuel => rw [readItems, readItems, readValue_skipBlanks]

theorem readItems_append (h : Blanks blanks) (fuel : Nat) (text : List Char) :
    readItems fuel (blanks ++ text) = readItems fuel text := by
  rw [← readItems_skipBlanks fuel (blanks ++ text), skipBlanks_append h, readItems_skipBlanks]

theorem readFields_skipBlanks (fuel : Nat) (text : List Char) :
    readFields fuel (skipBlanks text) = readFields fuel text := by
  cases fuel with
  | zero => rfl
  | succ fuel => rw [readFields, readFields, skipBlanks_skipBlanks]

theorem readFields_append (h : Blanks blanks) (fuel : Nat) (text : List Char) :
    readFields fuel (blanks ++ text) = readFields fuel text := by
  rw [← readFields_skipBlanks fuel (blanks ++ text), skipBlanks_append h, readFields_skipBlanks]

/-! ## Values without parts -/

theorem readValue_number {d : Decimal} (h : Decimal.scan text = some (d, rest)) (fuel : Nat) :
    readValue (fuel + 1) text = some (.number d.round, rest) := by
  obtain ⟨c, more, htext, hc⟩ := Decimal.head_of_scan h
  have hblank : isBlank c = false := by
    cases hb : isBlank c with
    | false => rfl
    | true =>
      simp only [isBlank, Bool.or_eq_true, beq_iff_eq] at hb
      rcases hb with ((hb | hb) | hb) | hb <;> rw [hb] at hc <;> exact absurd hc (by decide)
  rw [readValue, htext, skipBlanks_cons hblank, ← htext]
  -- Neither a minus sign nor a digit starts a word, a quoted text, a list or a record.
  split <;> first
    | exact absurd hc (by cases htext; decide)
    | rw [h]

/-! ## Lists and records -/

theorem readValue_bracket (fuel : Nat) (text : List Char) :
    readValue fuel (']' :: text) = none := by
  cases fuel with
  | zero => rfl
  | succ fuel => rfl

theorem readItems_bracket (fuel : Nat) (text : List Char) :
    readItems fuel (']' :: text) = none := by
  cases fuel with
  | zero => rfl
  | succ fuel => rw [readItems, readValue_bracket]

theorem readFields_brace (fuel : Nat) (text : List Char) :
    readFields fuel ('}' :: text) = none := by
  cases fuel with
  | zero => rfl
  | succ fuel => rfl

theorem readValue_list {items : List Value} (h : readItems fuel text = some (items, rest)) :
    readValue (fuel + 1) ('[' :: text) = some (.list items, rest) := by
  have hskip : skipBlanks ('[' :: text) = '[' :: text := rfl
  rw [← readItems_skipBlanks] at h
  rw [readValue]
  simp only [hskip]
  split
  · rename_i heq
    rw [heq, readItems_bracket] at h
    cases h
  · rw [h]

theorem readValue_record {fields : Record} (h : readFields fuel text = some (fields, rest)) :
    readValue (fuel + 1) ('{' :: text) = some (.record (Record.ofFields fields), rest) := by
  have hskip : skipBlanks ('{' :: text) = '{' :: text := rfl
  rw [← readFields_skipBlanks] at h
  rw [readValue]
  simp only [hskip]
  split
  · rename_i heq
    rw [heq, readFields_brace] at h
    cases h
  · rw [h]

/-! ### One part -/

theorem readItems_last {item : Value} (hblanks : Blanks blanks)
    (hitem : readValue fuel text = some (item, blanks ++ ']' :: rest)) :
    readItems (fuel + 1) text = some ([item], rest) := by
  have hskip : skipBlanks (blanks ++ ']' :: rest) = ']' :: rest := skipBlanks_append hblanks _
  rw [readItems, hitem]
  simp only [hskip]

theorem readItems_comma {item : Value} {items : List Value} {more : List Char}
    (hitem : readValue fuel text = some (item, ',' :: more))
    (hitems : readItems fuel more = some (items, rest)) :
    readItems (fuel + 1) text = some (item :: items, rest) := by
  have hskip : skipBlanks (',' :: more) = ',' :: more := rfl
  rw [readItems, hitem]
  simp only [hskip, hitems]

theorem quote_append (key : String) (text : List Char) :
    quote key.toList ++ text = '"' :: (key.toList.flatMap escape ++ '"' :: text) := by
  rw [quote, List.cons_append, List.append_assoc]
  rfl

theorem readFields_last (key : String) {value : Value} (hblanks : Blanks blanks)
    (hvalue : readValue fuel text = some (value, blanks ++ '}' :: rest)) :
    readFields (fuel + 1) (quote key.toList ++ ':' :: text) = some ([(key, value)], rest) := by
  have hquote : ∀ text, skipBlanks ('"' :: text) = '"' :: text := fun _ => rfl
  have hcolon : skipBlanks (':' :: text) = ':' :: text := rfl
  have hskip : skipBlanks (blanks ++ '}' :: rest) = '}' :: rest := skipBlanks_append hblanks _
  rw [quote_append, readFields, hquote]
  simp only [readQuoted_escape, hcolon, hvalue, hskip]

theorem readFields_comma (key : String) {value : Value} {fields : Record} {more : List Char}
    (hvalue : readValue fuel text = some (value, ',' :: more))
    (hfields : readFields fuel more = some (fields, rest)) :
    readFields (fuel + 1) (quote key.toList ++ ':' :: text) =
      some ((key, value) :: fields, rest) := by
  have hquote : ∀ text, skipBlanks ('"' :: text) = '"' :: text := fun _ => rfl
  have hcolon : skipBlanks (':' :: text) = ':' :: text := rfl
  have hskip : skipBlanks (',' :: more) = ',' :: more := rfl
  rw [quote_append, readFields, hquote]
  simp only [readQuoted_escape, hcolon, hvalue, hskip, hfields]

/-! ### All parts -/

/-- The text of the value is read as it should be, whatever follows and in every layout. -/
def Reads (value : Value) : Prop :=
  ∀ (style : Style) (fuel : Nat) (rest : List Char), 2 * (print style value).length ≤ fuel →
    Ends rest → readValue fuel (print style value ++ rest) = some (reread value, rest)

theorem ends_cons {c : Char} (h : c.isDigit = false ∧ c ≠ '.' ∧ c ≠ 'e' ∧ c ≠ 'E')
    (text : List Char) : Ends (c :: text) := by
  intro d hd
  rw [← Option.some.inj hd]
  exact h

theorem ends_last (style : Style) {c : Char}
    (h : c.isDigit = false ∧ c ≠ '.' ∧ c ≠ 'e' ∧ c ≠ 'E') (text : List Char) :
    Ends (style.last ++ c :: text) := by
  cases style with
  | compact => exact ends_cons h text
  | indented depth => exact ends_cons (by decide) _

theorem ends_comma (text : List Char) : Ends (',' :: text) := ends_cons (by decide) text

theorem join_cons (separator part : List Char) {parts : List (List Char)} (h : parts ≠ []) :
    join separator (part :: parts) = part ++ separator ++ join separator parts := by
  cases parts with
  | nil => exact absurd rfl h
  | cons next parts => rfl

theorem length_between_pos (style : Style) : 0 < style.between.length := Nat.succ_pos _

theorem readItems_join (style : Style) {items : List Value} (hne : items ≠ [])
    (h : ∀ item ∈ items, Reads item) (rest : List Char) (fuel : Nat)
    (hfuel : 2 * (join style.between (printItems style.deeper items)).length < fuel) :
    readItems fuel (join style.between (printItems style.deeper items) ++
      (style.last ++ ']' :: rest)) = some (rereadItems items, rest) := by
  induction items generalizing fuel with
  | nil => exact absurd rfl hne
  | cons item others ih =>
    obtain ⟨hitem, hothers⟩ := List.forall_mem_cons.mp h
    cases fuel with
    | zero => exact absurd hfuel (Nat.not_lt_zero _)
    | succ fuel =>
      cases others with
      | nil =>
        have hread := hitem style.deeper fuel (style.last ++ ']' :: rest)
          (Nat.le_of_lt_succ hfuel) (ends_last style (by decide) rest)
        exact readItems_last (blanks_last style) hread
      | cons next others =>
        have hbetween := length_between_pos style
        have hmore := ih (List.cons_ne_nil next others) hothers fuel
        have hjoin := join_cons style.between (print style.deeper item)
          (List.cons_ne_nil (print style.deeper next) (printItems style.deeper others))
        rw [printItems, printItems, hjoin, List.length_append, List.length_append] at hfuel
        rw [printItems, printItems, hjoin, List.append_assoc, List.append_assoc]
        rw [printItems] at hmore
        generalize join style.between (print style.deeper next :: printItems style.deeper others) =
          joined at hfuel hmore
        exact readItems_comma (hitem style.deeper fuel _ (by omega) (ends_comma _))
          ((readItems_append (blanks_first style) fuel _).trans (hmore (by omega)))

/-- The value of a field follows a colon and maybe a blank. -/
theorem Reads.after_colon {value : Value} (h : Reads value) (style : Style) (fuel : Nat)
    (rest : List Char) (hfuel : 2 * (print style value).length ≤ fuel) (hrest : Ends rest) :
    ∃ text, style.colon ++ (print style value ++ rest) = ':' :: text ∧
      readValue fuel text = some (reread value, rest) := by
  obtain ⟨blanks, hcolon, hblanks⟩ := exists_colon style
  refine ⟨blanks ++ (print style value ++ rest), ?_, ?_⟩
  · rw [hcolon]
    rfl
  · rw [readValue_append hblanks]
    exact h style fuel rest hfuel hrest

/-- The text of one field of a record. -/
def fieldText (style : Style) (key : String) (value : Value) : List Char :=
  quote key.toList ++ style.colon ++ print style value

theorem length_print_le (style : Style) (key : String) (value : Value) :
    (print style value).length ≤ (fieldText style key value).length := by
  rw [fieldText, List.length_append]
  exact Nat.le_add_left _ _

theorem printFields_cons (style : Style) (key : String) (value : Value) (others : Record) :
    printFields style ((key, value) :: others) =
      fieldText style key value :: printFields style others := by
  rw [printFields, fieldText]

theorem Reads.readFields_last {value : Value} (h : Reads value) (style : Style) (key : String)
    (hblanks : Blanks blanks) (hends : Ends (blanks ++ '}' :: rest))
    (hfuel : 2 * (fieldText style key value).length ≤ fuel) :
    readFields (fuel + 1) (fieldText style key value ++ (blanks ++ '}' :: rest)) =
      some ([(key, reread value)], rest) := by
  have hlength := length_print_le style key value
  obtain ⟨text, htext, hread⟩ := h.after_colon style fuel _ (by omega) hends
  rw [fieldText, List.append_assoc, List.append_assoc, htext]
  exact Json.readFields_last key hblanks hread

theorem Reads.readFields_comma {value : Value} (h : Reads value) (style : Style) (key : String)
    {fields : Record} {more : List Char} (hfuel : 2 * (fieldText style key value).length ≤ fuel)
    (hfields : readFields fuel more = some (fields, rest)) :
    readFields (fuel + 1) (fieldText style key value ++ (',' :: more)) =
      some ((key, reread value) :: fields, rest) := by
  have hlength := length_print_le style key value
  obtain ⟨text, htext, hread⟩ := h.after_colon style fuel _ (by omega) (ends_comma more)
  rw [fieldText, List.append_assoc, List.append_assoc, htext]
  exact Json.readFields_comma key hread hfields

theorem readFields_join (style : Style) {fields : Record} (hne : fields ≠ [])
    (h : ∀ field ∈ fields, Reads field.2) (rest : List Char) (fuel : Nat)
    (hfuel : 2 * (join style.between (printFields style.deeper fields)).length < fuel) :
    readFields fuel (join style.between (printFields style.deeper fields) ++
      (style.last ++ '}' :: rest)) = some (rereadFields fields, rest) := by
  induction fields generalizing fuel with
  | nil => exact absurd rfl hne
  | cons field others ih =>
    obtain ⟨key, value⟩ := field
    have hvalue : Reads value := h _ List.mem_cons_self
    have hothers : ∀ other ∈ others, Reads other.2 :=
      fun other ho => h other (List.mem_cons_of_mem _ ho)
    rw [printFields_cons] at hfuel ⊢
    cases fuel with
    | zero => exact absurd hfuel (Nat.not_lt_zero _)
    | succ fuel =>
      cases others with
      | nil =>
        exact hvalue.readFields_last style.deeper key (blanks_last style)
          (ends_last style (by decide) rest) (Nat.le_of_lt_succ hfuel)
      | cons next others =>
        have hbetween := length_between_pos style
        have hmore := ih (List.cons_ne_nil next others) hothers fuel
        have hnext : printFields style.deeper (next :: others) ≠ [] := List.cons_ne_nil _ _
        rw [join_cons _ _ hnext, List.length_append, List.length_append] at hfuel
        rw [join_cons _ _ hnext, List.append_assoc, List.append_assoc]
        generalize join style.between (printFields style.deeper (next :: others)) = joined
          at hfuel hmore
        exact hvalue.readFields_comma style.deeper key (by omega)
          ((readFields_append (blanks_first style) fuel _).trans (hmore (by omega)))

/-! ## Everything that can be said -/

theorem readValue_quote (s : String) (fuel : Nat) (rest : List Char) :
    readValue (fuel + 1) (quote s.toList ++ rest) = some (.string s, rest) := by
  have hskip : ∀ text, skipBlanks ('"' :: text) = '"' :: text := fun _ => rfl
  rw [quote_append, readValue, hskip]
  simp only [readQuoted_escape]

theorem readValue_quoteHalf (half : Half) (fuel : Nat) (rest : List Char) :
    readValue (fuel + 1) (quoteHalf half ++ rest) =
      some (.string (String.singleton Half.replacement), rest) := by
  have hskip : ∀ text, skipBlanks ('"' :: text) = '"' :: text := fun _ => rfl
  have htext : quoteHalf half ++ rest =
      '"' :: '\\' :: 'u' :: (hexUnit half.unit ++ '"' :: rest) := by
    rw [quoteHalf, List.cons_append, List.cons_append, List.cons_append, List.append_assoc]
    rfl
  rw [htext, readValue, hskip]
  simp only [readQuoted_half]

/-- There is always a first step, since no text of a value is empty. -/
theorem reads_of_succ {value : Value} (hne : ∀ style, print style value ≠ [])
    (h : ∀ style fuel rest, 2 * (print style value).length ≤ fuel + 1 → Ends rest →
      readValue (fuel + 1) (print style value ++ rest) = some (reread value, rest)) :
    Reads value := by
  intro style fuel rest hfuel hrest
  have hpos := List.length_pos_iff.mpr (hne style)
  cases fuel with
  | zero => omega
  | succ fuel => exact h style fuel rest hfuel hrest

theorem reads_number {negative : Bool} {units : Nat} {fits : Binary64.Fits units}
    (h : Binary64.finite negative units fits ≠ .zero true) :
    Reads (.number (.finite negative units fits)) := by
  apply reads_of_succ
  · intro style hnil
    obtain ⟨d, hscan, -⟩ := Binary64.scan_textChars h Decimal.ends_nil
    obtain ⟨c, more, htext, -⟩ := Decimal.head_of_scan hscan
    rw [List.append_nil] at htext
    exact List.cons_ne_nil c more (htext.symm.trans hnil)
  · intro style fuel rest _ hrest
    obtain ⟨d, hscan, hround⟩ := Binary64.scan_textChars h hrest
    have hread := readValue_number hscan fuel
    rw [hround] at hread
    exact hread

theorem enclose_eq (style : Style) (left right : Char) {parts : List (List Char)}
    (h : parts ≠ []) : enclose style left right parts =
      left :: (style.first ++ join style.between parts ++ style.last ++ [right]) := by
  cases parts with
  | nil => exact absurd rfl h
  | cons part parts => rfl

theorem enclose_ne_nil (style : Style) (left right : Char) (parts : List (List Char)) :
    enclose style left right parts ≠ [] := by
  cases parts <;> exact List.cons_ne_nil _ _

theorem reads_list {items : List Value} (h : ∀ item ∈ items, Reads item) :
    Reads (.list items) := by
  apply reads_of_succ
  · exact fun style => enclose_ne_nil style '[' ']' _
  · intro style fuel rest hfuel hrest
    rw [print] at hfuel ⊢
    by_cases hnil : items = []
    · subst hnil
      rfl
    · have hparts : printItems style.deeper items ≠ [] := by
        cases items with
        | nil => exact absurd rfl hnil
        | cons item others => exact List.cons_ne_nil _ _
      rw [enclose_eq style '[' ']' hparts] at hfuel ⊢
      simp only [List.length_cons, List.length_append] at hfuel
      have hitems := readItems_join style hnil h rest fuel (by omega)
      rw [← readItems_append (blanks_first style)] at hitems
      rw [List.cons_append, List.append_assoc, List.append_assoc, List.append_assoc]
      exact readValue_list hitems

theorem reads_record {fields : Record} (h : ∀ field ∈ fields, Reads field.2) :
    Reads (.record fields) := by
  apply reads_of_succ
  · exact fun style => enclose_ne_nil style '{' '}' _
  · intro style fuel rest hfuel hrest
    rw [print] at hfuel ⊢
    by_cases hnil : fields = []
    · subst hnil
      rfl
    · have hparts : printFields style.deeper fields ≠ [] := by
        cases fields with
        | nil => exact absurd rfl hnil
        | cons field others => exact List.cons_ne_nil _ _
      rw [enclose_eq style '{' '}' hparts] at hfuel ⊢
      simp only [List.length_cons, List.length_append] at hfuel
      have hfields := readFields_join style hnil h rest fuel (by omega)
      rw [← readFields_append (blanks_first style)] at hfields
      rw [List.cons_append, List.append_assoc, List.append_assoc, List.append_assoc]
      exact readValue_record hfields

theorem reads_of_sayable {value : Value} (h : Sayable value) : Reads value := by
  induction h with
  | null => exact reads_of_succ (fun _ => List.cons_ne_nil _ _) fun _ _ _ _ _ => rfl
  | boolean b =>
    cases b with
    | true => exact reads_of_succ (fun _ => List.cons_ne_nil _ _) fun _ _ _ _ _ => rfl
    | false => exact reads_of_succ (fun _ => List.cons_ne_nil _ _) fun _ _ _ _ _ => rfl
  | number h => exact reads_number h
  | string s =>
    exact reads_of_succ (fun _ => List.cons_ne_nil _ _)
      fun _ fuel rest _ _ => readValue_quote s fuel rest
  | half half =>
    exact reads_of_succ (fun _ => List.cons_ne_nil _ _)
      fun _ fuel rest _ _ => readValue_quoteHalf half fuel rest
  | list _ ih => exact reads_list ih
  | record _ ih => exact reads_record ih

/-- Reading undoes printing: what is read of the text of a value, in any layout, is what JSON can
say of the value. -/
theorem parse_render (style : Style) (value : Value) :
    parse (render style value) = some (reread (normal value)) := by
  have htext : (render style value).toList = print style (normal value) := String.toList_ofList
  have hread := reads_of_sayable (sayable_normal value) style
    (2 * (print style (normal value)).length + 2) [] (by omega) Decimal.ends_nil
  rw [List.append_nil] at hread
  rw [parse, htext, hread]
  rfl

end Json
end Worksheet
