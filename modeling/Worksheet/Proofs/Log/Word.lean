/-
Which level a word names.

A word is met in any case: each of its letters may be a capital (`lower_eq_iff`).  A text names the
level whose word it is, and any other text names `info`, so every text names exactly one level
(`exists_names`).  The table of levels finds that level, unless the text is one of the two words
that the table keeps for itself.  For those it finds something that is no level, and no logger
writes at what is no level: `ofWord_exact` says what follows for the answer to a caller.
-/
import Worksheet.Log.Logger
import Worksheet.Proofs.Label.Column
import Mathlib.Data.List.Forall2

namespace Worksheet

/-! ## Words in any case -/

namespace Text

/-- The text is the word, where any letter may be a capital. -/
def InAnyCase (text word : String) : Prop :=
  List.Forall₂ (fun c letter => c = letter ∨ c = letter.toUpper) text.toList word.toList

/-- A character of a word that only itself and its capital are lowered to. -/
def isWordChar (c : Char) : Bool := c.isLower && c ≠ 'k' || c = '_'

theorem toUpper_toLower_of_isUpper {c : Char} (h : c.isUpper = true) : c.toLower.toUpper = c := by
  have hall : ∀ n ∈ List.range 91, (Char.ofNat n).isUpper = true →
      (Char.ofNat n).toLower.toUpper = Char.ofNat n := by decide +kernel
  have hrange : 65 ≤ c.toNat ∧ c.toNat ≤ 90 := of_decide_eq_true h
  exact ColumnLabel.char_of_toNat_lt (P := fun d => d.isUpper = true → d.toLower.toUpper = d) hall
    (by omega) h

theorem toLower_of_not_isUpper {c : Char} (h : ¬ c.isUpper = true) : c.toLower = c :=
  dif_neg fun hrange => h (decide_eq_true hrange)

theorem lowerChar_of_isWordChar {letter : Char} (h : isWordChar letter = true) :
    lowerChar letter = letter ∧ lowerChar letter.toUpper = letter ∧ letter ≠ 'k' := by
  have hall : ∀ n ∈ List.range 123, isWordChar (Char.ofNat n) = true →
      lowerChar (Char.ofNat n) = Char.ofNat n ∧
        lowerChar (Char.ofNat n).toUpper = Char.ofNat n ∧ Char.ofNat n ≠ 'k' := by decide +kernel
  have hless : letter.toNat < 123 := by
    rcases (Bool.or_eq_true _ _).mp h with hlower | hmark
    · exact ColumnLabel.toNat_lt_of_isAlpha
        ((Bool.or_eq_true _ _).mpr (.inr ((Bool.and_eq_true _ _).mp hlower).1))
    · rw [of_decide_eq_true hmark]
      decide
  exact ColumnLabel.char_of_toNat_lt (P := fun d => isWordChar d = true → lowerChar d = d ∧
    lowerChar d.toUpper = d ∧ d ≠ 'k') hall hless h

theorem lowerChar_eq_iff {c letter : Char} (h : isWordChar letter = true) :
    lowerChar c = letter ↔ c = letter ∨ c = letter.toUpper := by
  obtain ⟨hself, hcapital, hk⟩ := lowerChar_of_isWordChar h
  constructor
  · intro heq
    unfold lowerChar at heq
    split at heq
    · exact absurd heq.symm hk
    · by_cases hupper : c.isUpper = true
      · rw [← heq, toUpper_toLower_of_isUpper hupper]
        exact .inr rfl
      · rw [toLower_of_not_isUpper hupper] at heq
        exact .inl heq
  · rintro (rfl | rfl)
    · exact hself
    · exact hcapital

theorem lower_eq_iff {text word : List Char} (h : ∀ letter ∈ word, isWordChar letter = true) :
    lower text = word ↔
      List.Forall₂ (fun c letter => c = letter ∨ c = letter.toUpper) text word := by
  induction text generalizing word with
  | nil => cases word <;> simp [lower]
  | cons c text ih =>
    cases word with
    | nil => simp [lower]
    | cons letter word =>
      obtain ⟨hletter, hword⟩ := List.forall_mem_cons.mp h
      rw [List.forall₂_cons, ← lowerChar_eq_iff hletter, ← ih hword]
      exact List.cons_eq_cons

theorem ofList_lower_eq_iff {text word : String}
    (h : ∀ letter ∈ word.toList, isWordChar letter = true) :
    String.ofList (lower text.toList) = word ↔ InAnyCase text word := by
  rw [InAnyCase, ← lower_eq_iff h, ← String.toList_inj, String.toList_ofList]

end Text

namespace Level

open Text (InAnyCase isWordChar)

theorem isWordChar_of_mem_word (level : Level) :
    ∀ letter ∈ level.word.toList, isWordChar letter = true :=
  List.all_eq_true.mp (by cases level <;> decide +kernel)

/-- One of the two words that the table of levels keeps for itself. -/
def Reserved (text : String) : Prop := ∃ entry ∈ reserved, InAnyCase text entry.1

theorem isWordChar_of_mem_reserved {entry : String × String} (h : entry ∈ reserved) :
    ∀ letter ∈ entry.1.toList, isWordChar letter = true := by
  simp only [reserved, List.mem_cons, List.not_mem_nil, or_false] at h
  refine List.all_eq_true.mp ?_
  rcases h with rfl | rfl <;> decide +kernel

theorem word_injective {level other : Level} (h : level.word = other.word) : level = other := by
  revert h
  cases level <;> cases other <;> decide

/-! ## What the table finds -/

variable {text : String} {level other : Level}

theorem ofWord_of_inAnyCase (h : InAnyCase text level.word) : ofWord text = .level level := by
  unfold ofWord
  rw [(Text.ofList_lower_eq_iff (isWordChar_of_mem_word level)).mpr h]
  cases level <;> rfl

theorem ofWord_of_reserved (h : Reserved text) : ∃ kind, ofWord text = .reserved kind := by
  obtain ⟨entry, hentry, hcase⟩ := h
  have hlowered := (Text.ofList_lower_eq_iff (isWordChar_of_mem_reserved hentry)).mpr hcase
  unfold ofWord
  simp only [reserved, List.mem_cons, List.not_mem_nil, or_false] at hentry
  rw [hlowered]
  rcases hentry with rfl | rfl
  · exact ⟨"function", rfl⟩
  · exact ⟨"object", rfl⟩

theorem ofWord_of_unknown (hword : ∀ level : Level, ¬ InAnyCase text level.word)
    (hreserved : ¬ Reserved text) : ofWord text = .level info := by
  have hfind : (all.find? fun level => level.word = String.ofList (Text.lower text.toList)) =
      none := by
    refine List.find?_eq_none.mpr fun level _ heq => hword level ?_
    exact (Text.ofList_lower_eq_iff (isWordChar_of_mem_word level)).mp (of_decide_eq_true heq).symm
  have hlookup : reserved.lookup (String.ofList (Text.lower text.toList)) = none := by
    refine List.lookup_eq_none_iff.mpr fun entry hentry => ?_
    refine bne_iff_ne.mpr fun heq => hreserved ⟨entry, hentry, ?_⟩
    exact (Text.ofList_lower_eq_iff (isWordChar_of_mem_reserved hentry)).mp heq
  simp only [ofWord, hfind, hlookup]

theorem not_reserved_word (level : Level) : ¬ Reserved level.word := by
  intro h
  obtain ⟨kind, hkind⟩ := ofWord_of_reserved h
  have hlevel : ofWord level.word = .level level := by cases level <;> rfl
  exact absurd (hlevel.symm.trans hkind) nofun

/-! ## The level that a text names -/

/-- The level that a text names: the one whose word it is, and `info` when it is none of them. -/
inductive Names (text : String) : Level → Prop
  | word (level : Level) (h : InAnyCase text level.word) : Names text level
  | other (h : ∀ level : Level, ¬ InAnyCase text level.word) : Names text info

theorem exists_names (text : String) : ∃ level, Names text level := by
  by_cases h : ∃ level : Level, InAnyCase text level.word
  · obtain ⟨level, hlevel⟩ := h
    exact ⟨level, .word level hlevel⟩
  · exact ⟨info, .other fun level hlevel => h ⟨level, hlevel⟩⟩

theorem Names.unique (h : Names text level) (hother : Names text other) : other = level := by
  cases h with
  | word _ hlevel =>
    cases hother with
    | word _ hcase =>
      -- both are what the text is in small letters
      have hlowered := (Text.ofList_lower_eq_iff (isWordChar_of_mem_word level)).mpr hlevel
      have hsame := (Text.ofList_lower_eq_iff (isWordChar_of_mem_word other)).mpr hcase
      exact word_injective (hsame.symm.trans hlowered)
    | other hnone => exact absurd hlevel (hnone _)
  | other hnone =>
    cases hother with
    | word _ hcase => exact absurd hcase (hnone _)
    | other _ => rfl

theorem Names.ofWord_eq_iff (h : Names text level) :
    ofWord text = .level level ↔ ¬ Reserved text := by
  constructor
  · intro hfound hreserved
    obtain ⟨kind, hkind⟩ := ofWord_of_reserved hreserved
    exact absurd (hfound.symm.trans hkind) nofun
  · intro hreserved
    cases h with
    | word _ hcase => exact ofWord_of_inAnyCase hcase
    | other hnone => exact ofWord_of_unknown hnone hreserved

theorem number_le (level : Level) : level.number ≤ 6 := by
  cases level <;> decide

end Level

/-! ## What a logger answers -/

namespace Logger

open Level (Names Reserved)

variable {logger : Logger} {text : String} {level : Level}

theorem writesWord_of_names (h : Names text level) (hreserved : ¬ Reserved text) :
    logger.writesWord text = logger.writes level.value := by
  rw [writesWord, h.ofWord_eq_iff.mpr hreserved]

theorem writesWord_of_reserved (h : Reserved text) : logger.writesWord text = false := by
  obtain ⟨kind, hkind⟩ := Level.ofWord_of_reserved h
  rw [writesWord, hkind]

theorem writesWord_word (level : Level) :
    logger.writesWord level.word = logger.writes level.value := by
  have hcase : Text.InAnyCase level.word level.word :=
    List.forall₂_same.mpr fun _ _ => .inl rfl
  exact writesWord_of_names (.word level hcase) (Level.not_reserved_word level)

end Logger

namespace Level

open Text (InAnyCase)

/-- Every text names exactly one level.  The table finds that level unless it keeps the text for
itself, and then every logger answers as for that level; at a text that the table keeps, no logger
writes. -/
theorem ofWord_exact (text : String) :
    ∃ level, (∀ other, Names text other ↔ other = level) ∧ level.number ≤ 6 ∧
      (ofWord text = .level level ↔ ¬ Reserved text) ∧
      ∀ logger : Logger,
        (¬ Reserved text → logger.writesWord text = logger.writes level.value ∧
          ((∀ known : Level, ¬ InAnyCase text known.word) →
            logger.writesWord text = logger.writesWord info.word)) ∧
        (Reserved text → logger.writesWord text = false) := by
  obtain ⟨level, hnames⟩ := exists_names text
  refine ⟨level, fun other => ⟨hnames.unique, ?_⟩, level.number_le, hnames.ofWord_eq_iff,
    fun logger => ⟨fun hreserved => ⟨Logger.writesWord_of_names hnames hreserved, ?_⟩,
      Logger.writesWord_of_reserved⟩⟩
  · rintro rfl
    exact hnames
  · intro hnone
    rw [Logger.writesWord_word info]
    exact Logger.writesWord_of_names (.other hnone) hreserved

/-- A text that is no level's word, and yet not taken for `info`: the table finds no level, and a
logger that writes at `info` denies that it writes at this one. -/
theorem ofWord_constructor :
    let text := "constructor"
    let logger : Logger := ⟨⟨info.value, .json, false, true, true, "gridcalc", none⟩, [], .ofNat 0⟩
    (∀ level : Level, ¬ InAnyCase text level.word ∧ ofWord text ≠ .level level) ∧
      logger.writesWord text = false ∧ logger.writesWord info.word = true := by
  intro text logger
  refine ⟨fun level => ⟨fun h => ?_, ?_⟩, by decide +kernel, by decide +kernel⟩
  · -- no word has so many letters
    have hlength := h.length_eq
    revert hlength
    cases level <;> decide +kernel
  · cases level <;> decide +kernel

end Level
end Worksheet
