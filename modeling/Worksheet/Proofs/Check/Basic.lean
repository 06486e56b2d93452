/-
What follows from the rules of a checker.

The rules name the two outcomes of a list, all items taken or some item refused, and likewise
those of a record.  There is no third (`list_cases`, `record_cases`), so that both the parts and
the issues of a whole are known from the verdicts on its parts, and nothing else of the whole
matters.

`Check.Reads` is what a choice of words comes to, with whatever stands in for a value that is
missing: three kinds of check have it, and those who use one need not know which it is.
-/
import Worksheet.Check.Basic
import Mathlib.Data.List.Forall2

namespace Worksheet

namespace Verdict

variable {α β : Type}

/-- Either all verdicts are good or one is not. -/
theorem exists_parts_or_error (verdicts : List (Verdict α)) :
    (∃ parts : List α, verdicts = parts.map .ok) ∨ ∃ issues, .error issues ∈ verdicts := by
  induction verdicts with
  | nil => exact .inl ⟨[], rfl⟩
  | cons verdict rest ih =>
    cases verdict with
    | error issues => exact .inr ⟨issues, List.mem_cons_self⟩
    | ok part =>
      rcases ih with ⟨parts, rfl⟩ | ⟨issues, hmem⟩
      · exact .inl ⟨part :: parts, rfl⟩
      · exact .inr ⟨issues, List.mem_cons_of_mem _ hmem⟩

theorem itemIssues_map_ok (parts : List α) : itemIssues (parts.map .ok) = [] := by
  rw [itemIssues, List.flatMap_eq_nil_iff]
  rintro ⟨verdict, n⟩ hmem
  obtain ⟨part, -, rfl⟩ := List.mem_map.mp (List.fst_mem_of_mem_zipIdx hmem)
  rfl

theorem itemIssues_map (check : β → Verdict α) (items : List β) :
    itemIssues (items.map check) = items.zipIdx.flatMap fun item =>
      (check item.1).issues.map (Issue.under (Issue.positionKey item.2)) := by
  rw [itemIssues, List.zipIdx_map, List.flatMap_map]
  rfl

theorem map_eq_map_ok_iff {check : β → Verdict α} {items : List β} {parts : List α} :
    items.map check = parts.map .ok ↔
      List.Forall₂ (fun item part => check item = .ok part) items parts := by
  induction items generalizing parts with
  | nil => cases parts <;> simp
  | cons item rest ih => cases parts <;> simp [ih]

end Verdict

namespace Check.Takes

variable {check : Check Value} {property : Value → Prop}

theorem eq_of_eq_ok (h : check.Takes property) {value part : Value}
    (hpart : check value = .ok part) : part = value := by
  by_cases hvalue : property value
  · rw [h.takes value hvalue] at hpart
    exact (Except.ok.inj hpart).symm
  · obtain ⟨problem, hrefuses⟩ := h.refuses
    cases (hrefuses value hvalue).symm.trans hpart

/-- Two values of one kind are refused for one reason. -/
theorem congr_of_not (h : check.Takes property) {value other : Value} (hvalue : ¬ property value)
    (hother : ¬ property other) (hkind : value.kind = other.kind) : check value = check other := by
  obtain ⟨problem, hrefuses⟩ := h.refuses
  rw [hrefuses value hvalue, hrefuses other hother, hkind]

end Check.Takes

namespace Checker.Lawful

variable {checker : Checker} (h : checker.Lawful)

include h

section

variable {checks : List (Check Value)} {value : Value}

/-- A union of checks that leave what they take as it is. -/
theorem union_eq_ok (htaken : ∃ check ∈ checks, check value = .ok value)
    (hsame : ∀ check ∈ checks, ∀ part, check value = .ok part → part = value) :
    checker.union checks value = .ok value := by
  apply h.union_takes checks value value
  cases hfound : checks.findSome? fun check => (check value).toOption with
  | none =>
    obtain ⟨check, hcheck, hvalue⟩ := htaken
    have hnone := List.findSome?_eq_none_iff.mp hfound check hcheck
    rw [hvalue] at hnone
    cases hnone
  | some part =>
    obtain ⟨check, hcheck, hpart⟩ := List.exists_of_findSome?_eq_some hfound
    cases hverdict : check value with
    | error issues =>
      rw [hverdict] at hpart
      cases hpart
    | ok other =>
      rw [hverdict] at hpart
      rw [← hsame check hcheck other hverdict, Option.some.inj hpart]

/-- A union has one thing to say if each of its checks has. -/
theorem exists_union_eq_error
    (hrefused : ∀ check ∈ checks, ∃ problem, check value = .error [⟨[], problem⟩]) :
    ∃ problem, checker.union checks value = .error [⟨[], problem⟩] := by
  have herror : ∀ check ∈ checks, ∃ issues, check value = .error issues := by
    intro check hcheck
    obtain ⟨problem, hproblem⟩ := hrefused check hcheck
    exact ⟨_, hproblem⟩
  rcases h.union_refuses checks value herror with hown | ⟨check, hcheck, hsame⟩
  · exact hown
  · obtain ⟨problem, hproblem⟩ := hrefused check hcheck
    exact ⟨problem, hsame.trans hproblem⟩

end

section

variable {α : Type} {check : Check α} {items others : List Value} {parts : List α}

/-- The two outcomes of a list. -/
theorem list_cases (check : Check α) (items : List Value) :
    (∃ parts : List α, items.map check = parts.map .ok ∧
      checker.list check (.list items) = .ok parts) ∨
    (∃ issues, .error issues ∈ items.map check) ∧
      checker.list check (.list items) = .error (Verdict.itemIssues (items.map check)) := by
  rcases Verdict.exists_parts_or_error (items.map check) with ⟨parts, hparts⟩ | ⟨issues, hmem⟩
  · exact .inl ⟨parts, hparts, h.list_takes check items parts hparts⟩
  · obtain ⟨item, hitem, hissues⟩ := List.mem_map.mp hmem
    exact .inr ⟨⟨issues, hmem⟩, h.list_refuses check items item issues hitem hissues⟩

theorem list_eq_error_of_not_list (check : Check α) {value : Value}
    (hvalue : ∀ items, value ≠ .list items) :
    ∃ problem, checker.list check value = .error [⟨[], problem⟩] := by
  obtain ⟨problem, hrefuses⟩ := h.list_refuses_other check
  exact ⟨problem value.kind, hrefuses value hvalue⟩

/-- Of what is no list only the kind matters. -/
theorem list_congr_of_not_list (check : Check α) {value other : Value}
    (hvalue : ∀ items, value ≠ .list items) (hother : ∀ items, other ≠ .list items)
    (hkind : value.kind = other.kind) : checker.list check value = checker.list check other := by
  obtain ⟨problem, hrefuses⟩ := h.list_refuses_other check
  rw [hrefuses value hvalue, hrefuses other hother, hkind]

/-- What is taken as a list is one, and its items are taken one by one. -/
theorem list_eq_ok_iff {value : Value} : checker.list check value = .ok parts ↔
    ∃ items, value = .list items ∧
      List.Forall₂ (fun item part => check item = .ok part) items parts := by
  constructor
  · intro hlist
    by_cases hvalue : ∃ items, value = .list items
    · obtain ⟨items, rfl⟩ := hvalue
      refine ⟨items, rfl, Verdict.map_eq_map_ok_iff.mp ?_⟩
      rcases h.list_cases check items with ⟨found, hfound, hok⟩ | ⟨-, herror⟩
      · rw [hfound, Except.ok.inj (hok.symm.trans hlist)]
      · cases herror.symm.trans hlist
    · obtain ⟨problem, herror⟩ :=
        h.list_eq_error_of_not_list check fun items heq => hvalue ⟨items, heq⟩
      cases herror.symm.trans hlist
  · rintro ⟨items, rfl, hitems⟩
    exact h.list_takes check items parts (Verdict.map_eq_map_ok_iff.mpr hitems)

/-- No issue of an item is lost, added or moved. -/
theorem issues_list (check : Check α) (items : List Value) :
    (checker.list check (.list items)).issues = Verdict.itemIssues (items.map check) := by
  rcases h.list_cases check items with ⟨parts, hparts, hok⟩ | ⟨-, herror⟩
  · rw [hok, hparts, Verdict.itemIssues_map_ok]
    rfl
  · rw [herror]
    rfl

/-- Lists whose items are checked alike are checked alike. -/
theorem list_congr (hsame : items.map check = others.map check) :
    checker.list check (.list items) = checker.list check (.list others) := by
  rcases h.list_cases check items with ⟨parts, hparts, hok⟩ | ⟨⟨issues, hmem⟩, herror⟩
  · rw [hok, h.list_takes check others parts (hsame ▸ hparts)]
  · obtain ⟨item, hitem, hissues⟩ := List.mem_map.mp (hsame ▸ hmem)
    rw [herror, h.list_refuses check others item issues hitem hissues, hsame]

end

section

variable {ι : Type} {Part : ι → Type}

/-- The two outcomes of a record. -/
theorem record_cases (shape : Shape ι Part) (fields : Record) :
    (∃ parts, (∀ i, shape.verdict (.record fields) i = .ok (parts i)) ∧
      checker.record shape (.record fields) = .ok parts) ∨
    (∃ i issues, shape.verdict (.record fields) i = .error issues) ∧
      checker.record shape (.record fields) = .error (shape.issues (.record fields)) := by
  by_cases hrefused : ∃ i issues, shape.verdict (.record fields) i = .error issues
  · obtain ⟨i, issues, hissues⟩ := hrefused
    exact .inr ⟨⟨i, issues, hissues⟩, h.record_refuses shape fields i issues hissues⟩
  · have htaken : ∀ i, ∃ part, shape.verdict (.record fields) i = .ok part := by
      intro i
      cases hverdict : shape.verdict (.record fields) i with
      | ok part => exact ⟨part, rfl⟩
      | error issues => exact absurd ⟨i, issues, hverdict⟩ hrefused
    choose parts hparts using htaken
    exact .inl ⟨parts, hparts, h.record_takes shape fields parts hparts⟩

end

end Checker.Lawful

/-! ## Words -/

/-- The check takes a value that is missing and, of the texts, the words.  It has one thing to say
against any other text. -/
structure Check.Reads {α : Type} (check : Check α) (words : List String) : Prop where
  absent : ∃ part, check .absent = .ok part
  word : ∀ text ∈ words, ∃ part, check (.string text) = .ok part
  other : ∀ text, text ∉ words → ∃ problem, check (.string text) = .error [⟨[], problem⟩]

namespace Checker.Lawful

variable {checker : Checker} (h : checker.Lawful) {α β : Type}

include h

theorem exists_choice_eq_ok (choices : Choices α) {text : String}
    (htext : text ∈ choices.map Prod.fst) :
    ∃ meaning, checker.choice choices (.string text) = .ok meaning := by
  cases hfound : choices.lookup text with
  | some meaning => exact ⟨meaning, h.choice_takes choices text meaning hfound⟩
  | none =>
    obtain ⟨choice, hchoice, rfl⟩ := List.mem_map.mp htext
    exact absurd rfl (bne_iff_ne.mp (List.lookup_eq_none_iff.mp hfound choice hchoice))

theorem exists_choice_eq_error (choices : Choices α) {text : String}
    (htext : text ∉ choices.map Prod.fst) :
    ∃ problem, checker.choice choices (.string text) = .error [⟨[], problem⟩] := by
  refine h.choice_refuses choices (.string text) fun choice hchoice heq => htext ?_
  exact Value.string.inj heq ▸ List.mem_map_of_mem hchoice

theorem withDefault_reads (choices : Choices α) {fallback : String}
    (hfallback : fallback ∈ choices.map Prod.fst) :
    (checker.withDefault (checker.choice choices) (.string fallback)).Reads
      (choices.map Prod.fst) where
  absent := by
    obtain ⟨meaning, hmeaning⟩ := h.exists_choice_eq_ok choices hfallback
    exact ⟨meaning, h.withDefault_absent _ _ _ hmeaning⟩
  word text htext := by
    rw [h.withDefault_of_ne _ _ _ Value.noConfusion]
    exact h.exists_choice_eq_ok choices htext
  other text htext := by
    rw [h.withDefault_of_ne _ _ _ Value.noConfusion]
    exact h.exists_choice_eq_error choices htext

theorem optional_reads (choices : Choices α) :
    (checker.optional (checker.choice choices)).Reads (choices.map Prod.fst) where
  absent := ⟨none, h.optional_absent _⟩
  word text htext := by
    obtain ⟨meaning, hmeaning⟩ := h.exists_choice_eq_ok choices htext
    refine ⟨some meaning, ?_⟩
    rw [h.optional_of_ne _ _ Value.noConfusion, hmeaning]
    rfl
  other text htext := by
    obtain ⟨problem, hproblem⟩ := h.exists_choice_eq_error choices htext
    refine ⟨problem, ?_⟩
    rw [h.optional_of_ne _ _ Value.noConfusion, hproblem]
    rfl

theorem transform_reads {check : Check α} {words : List String} (hreads : check.Reads words)
    (f : α → β) : (checker.transform check f).Reads words where
  absent := by
    obtain ⟨part, hpart⟩ := hreads.absent
    exact ⟨f part, by rw [h.transform_eq, hpart]; rfl⟩
  word text htext := by
    obtain ⟨part, hpart⟩ := hreads.word text htext
    exact ⟨f part, by rw [h.transform_eq, hpart]; rfl⟩
  other text htext := by
    obtain ⟨problem, hproblem⟩ := hreads.other text htext
    exact ⟨problem, by rw [h.transform_eq, hproblem]; rfl⟩

end Checker.Lawful

end Worksheet
