/-
JSON text on one line, and what is read of it.

Whatever a value holds, its compact text has no control character: texts are escaped one character
at a time, and the rest is digits, words and marks (`clear_print`; over several lines, the line
feeds of the layout are the only ones).  So a text on one line cannot be mistaken for two.

What is read of the text of a value is that value, but for what is absent from it (`kept`), if its
numbers are whole and its records are in order: nothing else is left out, moved or changed
(`reread_normal`).
-/
import Worksheet.Proofs.Json.RoundTrip
import Worksheet.Proofs.Record

namespace Worksheet
namespace Json

/-! ## Control characters -/

/-- The text has no control character, but for the line feeds of a layout over several lines. -/
def Clear (style : Style) (text : List Char) : Prop :=
  ∀ c ∈ text, 32 ≤ c.toNat ∨ c = '\n' ∧ style ≠ .compact

variable {style : Style} {text more : List Char} {c : Char}

theorem Clear.nil : Clear style [] := fun _ hc => absurd hc List.not_mem_nil

theorem Clear.cons (hc : 32 ≤ c.toNat) (h : Clear style text) : Clear style (c :: text) :=
  List.forall_mem_cons.mpr ⟨.inl hc, h⟩

theorem Clear.append (h : Clear style text) (hmore : Clear style more) :
    Clear style (text ++ more) := List.forall_mem_append.mpr ⟨h, hmore⟩

theorem Clear.of_deeper (h : Clear style.deeper text) : Clear style text := by
  intro c hc
  refine (h c hc).imp_right fun hline => ⟨hline.1, ?_⟩
  rintro rfl
  exact hline.2 rfl

theorem clear_of_forall (h : ∀ c ∈ text, 32 ≤ c.toNat) : Clear style text :=
  fun c hc => .inl (h c hc)

-- as a computed test: a statement on all characters of a text may be decided character by
-- character of the whole alphabet
theorem clear_of_all (h : (text.all fun c => decide (32 ≤ c.toNat)) = true) : Clear style text :=
  clear_of_forall fun c hc => of_decide_eq_true (List.all_eq_true.mp h c hc)

/-! ### Numbers -/

theorem le_toNat_of_isDigit (h : c.isDigit = true) : 32 ≤ c.toNat := by
  simp only [Char.isDigit, Bool.and_eq_true, decide_eq_true_eq] at h
  have hle : '0'.val.toNat ≤ c.val.toNat := h.1
  exact Nat.le_trans (by decide) hle

theorem clear_digitsOf (n : Nat) : Clear style (Decimal.digitsOf n) :=
  clear_of_forall fun _ hc => le_toNat_of_isDigit (Decimal.isDigit_of_mem_digitsOf hc)

theorem clear_stripZeros {digits : List Char} (h : Clear style digits) :
    Clear style (Binary64.stripZeros digits) := by
  intro c hc
  have hmem := (List.dropWhile_sublist _).mem (List.mem_reverse.mp hc)
  exact h c (List.mem_reverse.mp hmem)

theorem clear_zeros (n : Nat) : Clear style (List.replicate n '0') := by
  intro c hc
  rw [List.eq_of_mem_replicate hc]
  exact .inl (by decide)

theorem clear_exponentText (n : Int) : Clear style (Binary64.exponentText n) := by
  unfold Binary64.exponentText
  refine .cons (by decide) (.cons ?_ (clear_digitsOf _))
  split <;> decide

theorem clear_layout {digits : List Char} (h : Clear style digits) (point : Int) :
    Clear style (Binary64.layout digits point) := by
  unfold Binary64.layout
  split
  · exact h.append (clear_zeros _)
  · split
    · have htake : Clear style (digits.take point.toNat) :=
        fun c hc => h c (List.mem_of_mem_take hc)
      have hdrop : Clear style (digits.drop point.toNat) :=
        fun c hc => h c (List.mem_of_mem_drop hc)
      exact htake.append (.cons (by decide) hdrop)
    · split
      · exact .cons (by decide) (.cons (by decide) ((clear_zeros _).append h))
      · split
        · exact h.append (clear_exponentText _)
        · obtain ⟨hfirst, hrest⟩ := List.forall_mem_cons.mp h
          have htail := Clear.append hrest (clear_exponentText (point - 1))
          exact List.forall_mem_cons.mpr ⟨hfirst, Clear.cons (by decide) htail⟩
        · exact .nil

theorem clear_textChars (x : Binary64) : Clear style x.textChars := by
  have hdecimal : ∀ d : Decimal, Clear style (Binary64.decimalText d) :=
    fun d => clear_layout (clear_stripZeros (clear_digitsOf d.digits)) _
  unfold Binary64.textChars
  split
  · unfold Binary64.intText
    split
    · exact .cons (by decide) (clear_digitsOf _)
    · exact clear_digitsOf _
  · split
    · exact clear_of_all (by decide)
    · exact clear_of_all (by decide)
    · exact clear_of_all (by decide)
    · exact hdecimal _
    · exact .cons (by decide) (hdecimal _)

/-! ### Texts -/

theorem le_toNat_hexDigit : ∀ n < 16, 32 ≤ (hexDigit n).toNat := by decide

theorem clear_escape (c : Char) : Clear style (escape c) := by
  unfold escape
  split
  · exact clear_of_all (by decide)
  · exact clear_of_all (by decide)
  · exact clear_of_all (by decide)
  · exact clear_of_all (by decide)
  · exact clear_of_all (by decide)
  · exact clear_of_all (by decide)
  · exact clear_of_all (by decide)
  · split
    · rename_i hcontrol
      have hhigh := le_toNat_hexDigit (c.toNat / 16) (by omega)
      have hlow := le_toNat_hexDigit (c.toNat % 16) (by omega)
      exact .cons (by decide) (.cons (by decide) (.cons (by decide) (.cons (by decide)
        (.cons hhigh (.cons hlow .nil)))))
    · rename_i hplain
      exact .cons (Nat.le_of_not_lt hplain) .nil

theorem clear_quote (text : List Char) : Clear style (quote text) := by
  refine .cons (by decide) (Clear.append (fun c hc => ?_) (.cons (by decide) .nil))
  obtain ⟨source, -, hmem⟩ := List.mem_flatMap.mp hc
  exact clear_escape source c hmem

theorem clear_quoteHalf (half : Half) : Clear style (quoteHalf half) := by
  have hdigit : ∀ n, 32 ≤ (hexDigit (n % 16)).toNat :=
    fun n => le_toNat_hexDigit _ (Nat.mod_lt n (by decide))
  have hunit : Clear style (hexUnit half.unit) :=
    .cons (hdigit _) (.cons (hdigit _) (.cons (hdigit _) (.cons (hdigit _) .nil)))
  exact .cons (by decide) (.cons (by decide) (.cons (by decide)
    (hunit.append (.cons (by decide) .nil))))

theorem clear_word {word : String} (h : word ∈ ["null", "true", "false"]) :
    Clear style word.toList := by
  simp only [List.mem_cons, List.not_mem_nil, or_false] at h
  rcases h with rfl | rfl | rfl <;> exact clear_of_all (by decide)

/-! ### Layout -/

theorem clear_lineStart (depth : Nat) : Clear (.indented depth) (Style.lineStart depth) := by
  refine List.forall_mem_cons.mpr ⟨.inr ⟨rfl, Style.noConfusion⟩, fun c hc => ?_⟩
  rw [List.eq_of_mem_replicate hc]
  exact .inl (by decide)

theorem clear_first (style : Style) : Clear style style.first := by
  cases style with
  | compact => exact .nil
  | indented depth =>
    exact Clear.of_deeper (clear_lineStart (depth + 1))

theorem clear_last (style : Style) : Clear style style.last := by
  cases style with
  | compact => exact .nil
  | indented depth => exact clear_lineStart depth

theorem clear_colon (style : Style) : Clear style style.colon := by
  cases style with
  | compact => exact .cons (by decide) .nil
  | indented depth => exact .cons (by decide) (.cons (by decide) .nil)

theorem clear_join {separator : List Char} (hseparator : Clear style separator)
    {parts : List (List Char)} (h : ∀ part ∈ parts, Clear style part) :
    Clear style (join separator parts) := by
  induction parts with
  | nil => exact .nil
  | cons part rest ih =>
    obtain ⟨hpart, hrest⟩ := List.forall_mem_cons.mp h
    cases rest with
    | nil => exact hpart
    | cons next rest => exact (hpart.append hseparator).append (ih hrest)

theorem clear_enclose {left right : Char} (hleft : 32 ≤ left.toNat) (hright : 32 ≤ right.toNat)
    {parts : List (List Char)} (h : ∀ part ∈ parts, Clear style.deeper part) :
    Clear style (enclose style left right parts) := by
  cases parts with
  | nil => exact .cons hleft (.cons hright .nil)
  | cons part rest =>
    have hbetween : Clear style style.between := .cons (by decide) (clear_first style)
    have hjoin := clear_join hbetween fun part hpart => (h part hpart).of_deeper
    exact .cons hleft ((((clear_first style).append hjoin).append (clear_last style)).append
      (.cons hright .nil))

mutual

theorem clear_print (style : Style) : ∀ value : Value, Clear style (print style value)
  | .absent => clear_word (by decide)
  | .null => clear_word (by decide)
  | .boolean true => clear_word (by decide)
  | .boolean false => clear_word (by decide)
  | .number x => clear_textChars x
  | .string s => clear_quote s.toList
  | .half half => clear_quoteHalf half
  | .list items => clear_enclose (by decide) (by decide) (clear_printItems style.deeper items)
  | .record fields => clear_enclose (by decide) (by decide) (clear_printFields style.deeper fields)

theorem clear_printItems (style : Style) :
    ∀ items : List Value, ∀ part ∈ printItems style items, Clear style part
  | [] => fun _ hpart => absurd hpart List.not_mem_nil
  | item :: rest =>
    List.forall_mem_cons.mpr ⟨clear_print style item, clear_printItems style rest⟩

theorem clear_printFields (style : Style) :
    ∀ fields : Record, ∀ part ∈ printFields style fields, Clear style part
  | [] => fun _ hpart => absurd hpart List.not_mem_nil
  | (key, value) :: rest =>
    List.forall_mem_cons.mpr
      ⟨((clear_quote key.toList).append (clear_colon style)).append (clear_print style value),
        clear_printFields style rest⟩

end

/-- Compact text is one line. -/
theorem le_toNat_of_mem_render {value : Value} (h : c ∈ (render .compact value).toList) :
    32 ≤ c.toNat := by
  rw [render, String.toList_ofList] at h
  exact (clear_print .compact (normal value) c h).resolve_right fun hline => hline.2 rfl

/-! ## What is read -/

mutual

/-- A value as it is read back: a field without a value is left out, and an item without one is
null. -/
def kept : Value → Value
  | .absent => .null
  | .list items => .list (keptItems items)
  | .record fields => .record (keptFields fields)
  | value => value

def keptItems : List Value → List Value
  | [] => []
  | item :: rest => kept item :: keptItems rest

def keptFields : List (String × Value) → List (String × Value)
  | [] => []
  | (_, .absent) :: rest => keptFields rest
  | (key, value) :: rest => (key, kept value) :: keptFields rest

end

end Json

/-- A value of whole numbers, texts, truth values, null and nothing, in lists and in records that
are in order. -/
inductive Value.Loggable : Value → Prop
  | absent : Value.Loggable .absent
  | null : Value.Loggable .null
  | boolean (b : Bool) : Value.Loggable (.boolean b)
  | number {x : Binary64} (safe : x.isSafe = true) (unsigned : x ≠ .zero true) :
      Value.Loggable (.number x)
  | string (s : String) : Value.Loggable (.string s)
  | list {items : List Value} (h : ∀ item ∈ items, item.Loggable) : Value.Loggable (.list items)
  | record {fields : Record} (proper : Record.Proper fields)
      (h : ∀ field ∈ fields, field.2.Loggable) : Value.Loggable (.record fields)

namespace Json

theorem normalNumber_of_isSafe {x : Binary64} (hsafe : x.isSafe = true) (hx : x ≠ .zero true) :
    normalNumber x = .number x := by
  cases x with
  | nan => cases hsafe
  | infinite negative => cases hsafe
  | finite negative units fits =>
    rw [normalNumber]
    split
    · rename_i hzero
      subst hzero
      cases negative with
      | false => rfl
      | true => exact absurd rfl hx
    · rfl

theorem keys_keptFields (fields : Record) :
    (Record.keys (keptFields fields)).Sublist (Record.keys fields) := by
  induction fields with
  | nil => exact .slnil
  | cons field rest ih =>
    obtain ⟨key, value⟩ := field
    cases value with
    | absent => exact ih.cons key
    | _ => exact ih.cons_cons key

theorem rereadItems_normalItems {items : List Value}
    (h : ∀ item ∈ items, reread (normal item) = kept item) :
    rereadItems (normalItems items) = keptItems items := by
  induction items with
  | nil => rfl
  | cons item rest ih =>
    obtain ⟨hitem, hrest⟩ := List.forall_mem_cons.mp h
    rw [normalItems, rereadItems, hitem, ih hrest, keptItems]

theorem rereadFields_normalFields {fields : Record}
    (h : ∀ field ∈ fields, reread (normal field.2) = kept field.2) :
    rereadFields (normalFields fields) = keptFields fields := by
  induction fields with
  | nil => rfl
  | cons field rest ih =>
    obtain ⟨hfield, hrest⟩ := List.forall_mem_cons.mp h
    obtain ⟨key, value⟩ := field
    cases value with
    | absent => exact ih hrest
    | _ => exact List.cons_eq_cons.mpr ⟨congrArg (Prod.mk key) hfield, ih hrest⟩

/-- Nothing but what is absent is lost on the way through text. -/
theorem reread_normal {value : Value} (h : value.Loggable) :
    reread (normal value) = kept value := by
  induction h with
  | absent => rfl
  | null => rfl
  | boolean b => rfl
  | number hsafe hx =>
    rw [normal, normalNumber_of_isSafe hsafe hx]
    rfl
  | string s => rfl
  | list _ ih => exact congrArg Value.list (rereadItems_normalItems ih)
  | @record fields proper _ ih =>
    have hordered : Record.Proper (keptFields fields) := proper.of_sublist (keys_keptFields fields)
    rw [normal, reread, rereadFields_normalFields ih, Record.ofFields_eq_self hordered]
    rfl

theorem parse_render_of_loggable (style : Style) {value : Value} (h : value.Loggable) :
    parse (render style value) = some (kept value) :=
  (parse_render style value).trans (congrArg some (reread_normal h))

end Json
end Worksheet
