/-
The checker of programs keeps to the rules.

Only lists need an argument: the verdicts on the items are gathered one after the other, and what
comes out is all parts or all issues (`gather_map_ok`, `issues_gather`).
-/
import Worksheet.Check.Standard
import Worksheet.Proofs.Check.Basic

namespace Worksheet

/-! ## Gathering -/

namespace Verdict

variable {α : Type}

theorem gather_map_ok (parts : List α) : gather (parts.map .ok) = .ok parts := by
  induction parts with
  | nil => rfl
  | cons part rest ih => rw [List.map_cons, gather, ih]

/-- No issue is lost, added or moved. -/
theorem issues_gather (verdicts : List (Verdict α)) :
    (gather verdicts).issues = verdicts.flatMap issues := by
  induction verdicts with
  | nil => rfl
  | cons verdict rest ih =>
    rw [List.flatMap_cons, ← ih]
    cases verdict <;> cases h : gather rest <;> simp [gather, h, issues]

/-- One verdict that is not good is enough for issues. -/
theorem exists_gather_eq_error {verdicts : List (Verdict α)} {issues : List Issue}
    (hmem : .error issues ∈ verdicts) : ∃ found, gather verdicts = .error found := by
  induction verdicts with
  | nil => exact absurd hmem List.not_mem_nil
  | cons verdict rest ih =>
    cases verdict with
    | error first => cases h : gather rest <;> simp [gather, h]
    | ok part =>
      have hrest : .error issues ∈ rest := by
        rcases List.mem_cons.mp hmem with heq | hrest
        · cases heq
        · exact hrest
      obtain ⟨found, hfound⟩ := ih hrest
      exact ⟨found, by simp [gather, hfound]⟩

theorem issues_under (key : String) (verdict : Verdict α) :
    (verdict.under key).issues = verdict.issues.map (Issue.under key) := by
  cases verdict <;> rfl

theorem objections?_eq_some {verdict : Verdict α} {issues : List Issue}
    (h : verdict.objections? = some issues) : verdict = .error issues := by
  cases verdict with
  | ok part => cases h
  | error found =>
    unfold objections? at h
    split at h
    · rename_i heq
      cases heq
    · rename_i heq
      cases heq
      split at h <;> cases h
      rfl

end Verdict

namespace Checker

open Verdict

namespace Standard

variable {α : Type}

/-! ## The rules, one by one -/

theorem text_takes : Check.Takes text fun value => value.kind = "string" where
  takes _ hkind := if_pos hkind
  refuses := ⟨fun kind => .expected "string" kind, fun _ hkind => if_neg hkind⟩

theorem finite_takes : Check.Takes finite fun value => value.isFinite = true where
  takes _ hfinite := if_pos hfinite
  refuses := ⟨fun kind => if kind = "number" then .notFinite else .expected "number" kind,
    fun _ hfinite => if_neg hfinite⟩

theorem null_takes : Check.Takes null fun value => value = .null where
  takes value hnull := by
    rw [hnull]
    rfl
  refuses := by
    refine ⟨fun kind => .expected "null" kind, fun value hnull => ?_⟩
    cases value with
    | null => exact absurd rfl hnull
    | _ => rfl

theorem union_takes {checks : List (Check Value)} {value part : Value}
    (h : (checks.findSome? fun check => (check value).toOption) = some part) :
    union checks value = .ok part := by
  have hfound : (checks.map fun check => check value).findSome? Except.toOption = some part := by
    rw [List.findSome?_map]
    exact h
  simp only [union, hfound]

theorem union_refuses {checks : List (Check Value)} {value : Value}
    (h : ∀ check ∈ checks, ∃ issues, check value = .error issues) :
    (∃ problem, union checks value = .error [⟨[], problem⟩]) ∨
      ∃ check ∈ checks, union checks value = check value := by
  have hnone : (checks.map fun check => check value).findSome? Except.toOption = none := by
    rw [List.findSome?_map, List.findSome?_eq_none_iff]
    intro check hcheck
    obtain ⟨issues, hissues⟩ := h check hcheck
    show (check value).toOption = none
    rw [hissues]
    rfl
  simp only [union, hnone]
  cases hspoken : (checks.map fun check => check value).findSome? objections? with
  | none => exact .inl ⟨.noKindFits, rfl⟩
  | some issues =>
    obtain ⟨verdict, hverdict, hissues⟩ := List.exists_of_findSome?_eq_some hspoken
    obtain ⟨check, hcheck, rfl⟩ := List.mem_map.mp hverdict
    exact .inr ⟨check, hcheck, (objections?_eq_some hissues).symm⟩

theorem union_congr {checks : List (Check Value)} {value other : Value}
    (h : ∀ check ∈ checks, check value = check other) :
    union checks value = union checks other := by
  have hverdicts : (checks.map fun check => check value) = checks.map fun check => check other :=
    List.map_congr_left h
  simp only [union, hverdicts]

theorem list_takes {check : Check α} {items : List Value} {parts : List α}
    (h : items.map check = parts.map .ok) : list check (.list items) = .ok parts := by
  have hparts : ((parts.map .ok).zipIdx.map fun item : Verdict α × Nat =>
      item.1.under (Issue.positionKey item.2)) = parts.map .ok := by
    rw [List.zipIdx_map, List.map_map]
    calc parts.zipIdx.map _ = parts.zipIdx.map (Except.ok ∘ Prod.fst) :=
          List.map_congr_left fun _ _ => rfl
      _ = parts.map .ok := by rw [← List.map_map, List.zipIdx_map_fst]
  rw [list, h]
  exact (congrArg gather hparts).trans (gather_map_ok parts)

theorem issues_list (check : Check α) (items : List Value) :
    (list check (.list items)).issues = itemIssues (items.map check) := by
  rw [list, issues_gather, List.flatMap_map, itemIssues]
  congr 1
  funext item
  exact issues_under (Issue.positionKey item.2) item.1

theorem list_refuses {check : Check α} {items : List Value} {item : Value} {issues : List Issue}
    (hitem : item ∈ items) (h : check item = .error issues) :
    list check (.list items) = .error (itemIssues (items.map check)) := by
  rw [← issues_list]
  cases hlist : list check (.list items) with
  | error found => rfl
  | ok parts =>
    obtain ⟨n, hn⟩ := List.mem_iff_getElem?.mp hitem
    have hverdict : (.error issues, n) ∈ (items.map check).zipIdx := by
      rw [List.mem_zipIdx_iff_getElem?, List.getElem?_map, hn, Option.map_some, h]
    have hmem := List.mem_map_of_mem (f := fun item : Verdict α × Nat =>
      item.1.under (Issue.positionKey item.2)) hverdict
    obtain ⟨found, hfound⟩ := exists_gather_eq_error hmem
    rw [list] at hlist
    cases hfound.symm.trans hlist

theorem choice_takes {choices : Choices α} {word : String} {meaning : α}
    (h : choices.lookup word = some meaning) : choice choices (.string word) = .ok meaning := by
  rw [choice, h]

theorem choice_refuses {choices : Choices α} {value : Value}
    (h : ∀ choice ∈ choices, value ≠ .string choice.1) :
    ∃ problem, choice choices value = .error [⟨[], problem⟩] := by
  cases value with
  | string word =>
    have hnone : choices.lookup word = none := by
      rw [List.lookup_eq_none_iff]
      intro choice hchoice
      exact bne_iff_ne.mpr fun heq => h choice hchoice (congrArg Value.string heq)
    exact ⟨_, by rw [choice, hnone]; rfl⟩
  | _ => exact ⟨_, rfl⟩

theorem withDefault_of_ne {check : Check α} (fallback : Value) {value : Value}
    (h : value ≠ .absent) : withDefault check fallback value = check value := by
  cases value with
  | absent => exact absurd rfl h
  | _ => rfl

theorem optional_of_ne {check : Check α} {value : Value} (h : value ≠ .absent) :
    optional check value = (check value).map some := by
  cases value with
  | absent => exact absurd rfl h
  | _ => rfl

variable {ι : Type} {Part : ι → Type}

theorem record_takes {shape : Shape ι Part} {fields : Record} {parts : ∀ i, Part i}
    (h : ∀ i, shape.verdict (.record fields) i = .ok (parts i)) :
    record shape (.record fields) = .ok parts := by
  have hsome : ∀ i ∈ shape.fields,
      (shape.verdict (.record fields) i).toOption.isSome = true := by
    intro i _
    rw [h i]
    rfl
  rw [record, dif_pos hsome]
  congr 1
  funext i
  simp only [h i, Except.toOption, Option.get_some]

theorem record_refuses {shape : Shape ι Part} {fields : Record} {i : ι} {issues : List Issue}
    (h : shape.verdict (.record fields) i = .error issues) :
    record shape (.record fields) = .error (shape.issues (.record fields)) := by
  rw [record, dif_neg]
  intro hsome
  have hi := hsome i (shape.complete i)
  rw [h] at hi
  cases hi

end Standard

theorem lawful_standard : standard.Lawful where
  text_takes := Standard.text_takes
  finite_takes := Standard.finite_takes
  null_takes := Standard.null_takes
  union_takes _ _ _ := Standard.union_takes
  union_refuses _ _ := Standard.union_refuses
  union_congr _ _ _ := Standard.union_congr
  transform_eq _ _ _ := rfl
  list_takes _ _ _ := Standard.list_takes
  list_refuses _ _ _ _ := Standard.list_refuses
  list_refuses_other check := by
    refine ⟨fun kind => .expected "array" kind, fun value hvalue => ?_⟩
    cases value with
    | list items => exact absurd rfl (hvalue items)
    | _ => rfl
  choice_takes _ _ _ := Standard.choice_takes
  choice_refuses _ _ := Standard.choice_refuses
  withDefault_absent _ _ _ hcheck := hcheck
  withDefault_of_ne _ fallback _ := Standard.withDefault_of_ne fallback
  optional_absent _ := rfl
  optional_of_ne _ _ := Standard.optional_of_ne
  record_takes _ _ _ := Standard.record_takes
  record_refuses _ _ _ _ := Standard.record_refuses

end Checker
end Worksheet
