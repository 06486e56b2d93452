/-
The equation of a cell, over exact whole numbers.

`Sheet.Yields` says what a cell comes to when the cells it refers to have given values, with
no rounding and no bound.  The arithmetic of an evaluation rounds, but it starts from numbers
that are exact and safe, and a result of two operands is tested after it is rounded.  That
test decides the exact bound, so a value that is found is the exact one (`yields_of_eq_ok`)
and an exact value within the bound is found (`eq_ok_of_yields`).
-/
import Worksheet.Proofs.Binary64.Whole
import Worksheet.Proofs.Naive

namespace Worksheet

open Binary64

/-! ## Signs -/

namespace Sign

/-- A whole number behind a sign. -/
def applyExact : Sign → Int → Int
  | plus, n => n
  | minus, n => -n

/-- Two whole numbers with a sign between them. -/
def combineExact : Sign → Int → Int → Int
  | plus, m, n => m + n
  | minus, m, n => m - n

theorem represents_apply {x : Binary64} {n : Int} (h : Represents x n) (sign : Sign) :
    Represents (sign.apply x) (sign.applyExact n) := by
  cases sign with
  | plus => exact h
  | minus => exact h.negate

theorem combine_eq_ofInt {x y : Binary64} {m n : Int} (hx : Represents x m)
    (hy : Represents y n) (operator : Sign) :
    operator.combine x y = ofInt (operator.combineExact m n) := by
  cases operator with
  | plus => exact hx.add_eq hy
  | minus => exact hx.sub_eq hy

end Sign

theorem Literal.represents {text : List Char} {x : Binary64}
    (h : Literal.parse? text = some x) : ∃ n, Represents x n := by
  unfold Literal.parse? at h
  split at h
  · cases h
  · rename_i n _
    split at h
    · rename_i hsafe
      exact ⟨n, Option.some.inj h ▸ represents_ofInt hsafe⟩
    · cases h

theorem Term.represents {text : String} {x : Binary64}
    (h : Term.parse text = .ok (.literal x)) : ∃ n, Represents x n := by
  unfold Term.parse at h
  split at h
  · split at h <;> cases h
  · split at h
    · rename_i y hparse
      cases h
      exact Literal.represents hparse
    · cases h

namespace Sheet

variable {sheet : Sheet} {cell : sheet.Member} {operand : Operand} {v w : sheet.Member → Int}

/-! ## What a cell comes to -/

/-- The operand comes to the number, where `v` gives the values of the cells. -/
inductive Amounts (sheet : Sheet) (v : sheet.Member → Int) (operand : Operand) : Int → Prop
  | literal {x : Binary64} {n : Int} (hparse : Term.parse operand.text = .ok (.literal x))
      (hvalue : x.toInt? = some n) : Amounts sheet v operand (operand.sign.applyExact n)
  | reference {target : sheet.Member} (hnames : sheet.Names operand target) :
      Amounts sheet v operand (operand.sign.applyExact (v target))

/-- The formula comes to the number. -/
inductive Results (sheet : Sheet) (v : sheet.Member → Int) : Formula → Int → Prop
  | single {operand : Operand} {n : Int} (hoperand : sheet.Amounts v operand n) :
      Results sheet v (.single operand) n
  | binary {left right : Operand} {operator : Sign} {m n : Int}
      (hleft : sheet.Amounts v left m) (hright : sheet.Amounts v right n) :
      Results sheet v (.binary left operator right) (operator.combineExact m n)

/-- The cell comes to the number. -/
inductive Yields (sheet : Sheet) (v : sheet.Member → Int) (cell : sheet.Member) : Int → Prop
  | blank (hblank : sheet.trimmed cell = []) : Yields sheet v cell 0
  | literal {x : Binary64} {n : Int} (hparse : Literal.parse? (sheet.trimmed cell) = some x)
      (hvalue : x.toInt? = some n) : Yields sheet v cell n
  | formula {formula : Formula} {n : Int} (hformula : sheet.HasFormula cell formula)
      (hresults : sheet.Results v formula n) : Yields sheet v cell n

/-- The values satisfy the equation of every cell. -/
def Solves (sheet : Sheet) (v : sheet.Member → Int) : Prop :=
  ∀ cell, sheet.Yields v cell (v cell)

/-- The formula of the cell has two operands. -/
def IsBinary (sheet : Sheet) (cell : sheet.Member) : Prop :=
  ∃ left operator right, sheet.HasFormula cell (.binary left operator right)

/-- Each position that the text mentions is a cell of the sheet. -/
def InRange (sheet : Sheet) (cell : sheet.Member) : Prop :=
  ∀ position, sheet.Mentions cell position → ∃ target, sheet.memberAt? position = some target

/-! ## One number at most -/

theorem Amounts.unique {m n : Int} (h : sheet.Amounts v operand m)
    (ho : sheet.Amounts v operand n) : m = n := by
  have hclash : ∀ {x target}, Term.parse operand.text = .ok (.literal x) →
      ¬ sheet.Names operand target := by
    rintro x target hparse ⟨label, position, hreference, -⟩
    rw [hparse] at hreference
    cases hreference
  cases h with
  | literal hparse hvalue =>
    cases ho with
    | literal hparse' hvalue' =>
      rw [hparse] at hparse'
      cases hparse'
      rw [hvalue] at hvalue'
      cases hvalue'
      rfl
    | reference hnames => exact absurd hnames (hclash hparse)
  | reference hnames =>
    cases ho with
    | literal hparse => exact absurd hnames (hclash hparse)
    | reference hnames' => rw [names_unique hnames hnames']

theorem Results.unique {formula : Formula} {m n : Int} (h : sheet.Results v formula m)
    (ho : sheet.Results v formula n) : m = n := by
  cases h with
  | single hoperand =>
    cases ho with
    | single hoperand' => exact hoperand.unique hoperand'
  | binary hleft hright =>
    cases ho with
    | binary hleft' hright' => rw [hleft.unique hleft', hright.unique hright']

/-- A text is blank, a number or a formula, and never two of these. -/
theorem parse?_of_hasFormula {formula : Formula} (h : sheet.HasFormula cell formula) :
    Literal.parse? (sheet.trimmed cell) = none := by
  obtain ⟨rest, htext, -⟩ := h
  rw [htext, parse?_equals]

theorem trimmed_ne_nil {formula : Formula} (h : sheet.HasFormula cell formula) :
    sheet.trimmed cell ≠ [] := by
  obtain ⟨rest, htext, -⟩ := h
  rw [htext]
  exact List.cons_ne_nil _ _

theorem trimmed_ne_nil_of_parse? {x : Binary64}
    (h : Literal.parse? (sheet.trimmed cell) = some x) : sheet.trimmed cell ≠ [] := by
  intro hblank
  rw [hblank, parse?_nil] at h
  cases h

theorem Yields.unique {m n : Int} (h : sheet.Yields v cell m) (ho : sheet.Yields v cell n) :
    m = n := by
  cases h with
  | blank hblank =>
    cases ho with
    | blank => rfl
    | literal hparse => exact absurd hblank (trimmed_ne_nil_of_parse? hparse)
    | formula hformula => exact absurd hblank (trimmed_ne_nil hformula)
  | literal hparse hvalue =>
    cases ho with
    | blank hblank => exact absurd hblank (trimmed_ne_nil_of_parse? hparse)
    | literal hparse' hvalue' =>
      rw [hparse] at hparse'
      cases hparse'
      rw [hvalue] at hvalue'
      exact Option.some.inj hvalue'
    | formula hformula =>
      rw [parse?_of_hasFormula hformula] at hparse
      cases hparse
  | formula hformula hresults =>
    cases ho with
    | blank hblank => exact absurd hblank (trimmed_ne_nil hformula)
    | literal hparse =>
      rw [parse?_of_hasFormula hformula] at hparse
      cases hparse
    | formula hformula' hresults' =>
      rw [← hasFormula_unique hformula hformula'] at hresults'
      exact hresults.unique hresults'

/-! ## What the number depends on -/

theorem Amounts.congr {n : Int} (h : sheet.Amounts v operand n)
    (hvw : ∀ target, sheet.Names operand target → v target = w target) :
    sheet.Amounts w operand n := by
  cases h with
  | literal hparse hvalue => exact .literal hparse hvalue
  | reference hnames =>
    rw [hvw _ hnames]
    exact .reference hnames

theorem Results.congr {formula : Formula} {n : Int} (h : sheet.Results v formula n)
    (hvw : ∀ operand ∈ formula.operands, ∀ target, sheet.Names operand target →
      v target = w target) : sheet.Results w formula n := by
  cases h with
  | single hoperand => exact .single (hoperand.congr (hvw _ List.mem_cons_self))
  | binary hleft hright =>
    have hlast := hvw _ (List.mem_cons_of_mem _ List.mem_cons_self)
    exact .binary (hleft.congr (hvw _ List.mem_cons_self)) (hright.congr hlast)

theorem Yields.congr {n : Int} (h : sheet.Yields v cell n)
    (hvw : ∀ target, sheet.Refers cell target → v target = w target) :
    sheet.Yields w cell n := by
  cases h with
  | blank hblank => exact .blank hblank
  | literal hparse hvalue => exact .literal hparse hvalue
  | formula hformula hresults =>
    refine .formula hformula (hresults.congr fun operand ho target hnames => hvw target ?_)
    exact ⟨_, operand, hformula, ho, hnames⟩

/-! ## One number at least -/

theorem exists_amounts {term : Term} (hparse : Term.parse operand.text = .ok term)
    (hrange : ∀ label position, term = .reference label position →
      ∃ target, sheet.memberAt? position = some target) (v : sheet.Member → Int) :
    ∃ n, sheet.Amounts v operand n := by
  cases term with
  | literal x =>
    obtain ⟨n, hx⟩ := Term.represents hparse
    exact ⟨_, .literal hparse hx.toInt?_eq⟩
  | reference label position =>
    obtain ⟨target, hfound⟩ := hrange label position rfl
    exact ⟨_, .reference ⟨label, position, hparse, hfound⟩⟩

theorem exists_results {formula : Formula} (v : sheet.Member → Int)
    (h : ∀ operand ∈ formula.operands, ∃ n, sheet.Amounts v operand n) :
    ∃ n, sheet.Results v formula n := by
  cases formula with
  | single operand =>
    obtain ⟨n, hn⟩ := h operand List.mem_cons_self
    exact ⟨n, .single hn⟩
  | binary left operator right =>
    obtain ⟨m, hm⟩ := h left List.mem_cons_self
    obtain ⟨n, hn⟩ := h right (List.mem_cons_of_mem _ List.mem_cons_self)
    exact ⟨_, .binary hm hn⟩

/-- A cell that reads well and mentions only cells of the sheet comes to a number, whatever
the values of those cells. -/
theorem exists_yields (hwell : sheet.WellFormed cell) (hrange : sheet.InRange cell)
    (v : sheet.Member → Int) : ∃ n, sheet.Yields v cell n := by
  rcases hwell with hblank | hliteral | ⟨formula, hformula, hterms⟩
  · exact ⟨0, .blank hblank⟩
  · obtain ⟨x, hparse⟩ := Option.isSome_iff_exists.mp hliteral
    obtain ⟨n, hx⟩ := Literal.represents hparse
    exact ⟨n, .literal hparse hx.toInt?_eq⟩
  · have hoperands : ∀ operand ∈ formula.operands, ∃ n, sheet.Amounts v operand n := by
      intro operand ho
      obtain ⟨term, hparse⟩ := hterms operand ho
      refine exists_amounts hparse (fun label position heq => ?_) v
      exact hrange position ⟨formula, operand, label, hformula, ho, heq ▸ hparse⟩
    obtain ⟨n, hn⟩ := exists_results v hoperands
    exact ⟨n, .formula hformula hn⟩

/-! ## Values that are found are exact -/

variable {f : sheet.Member → Outcome} {x : Binary64} {n : Int}

theorem amounts_of_eq_ok (h : sheet.interpretOperand f operand = .ok x)
    (hexact : ∀ target y, sheet.Names operand target → f target = .ok y →
      Represents y (v target)) : ∃ n, sheet.Amounts v operand n ∧ Represents x n := by
  rcases interpretOperand_eq_ok_iff.mp h with ⟨y, hparse, rfl⟩ | ⟨target, y, hnames, hvalue, rfl⟩
  · obtain ⟨n, hy⟩ := Term.represents hparse
    exact ⟨_, .literal hparse hy.toInt?_eq, Sign.represents_apply hy _⟩
  · exact ⟨_, .reference hnames, Sign.represents_apply (hexact target y hnames hvalue) _⟩

/-- A value that is found from exact values is exact. -/
theorem yields_of_eq_ok (h : sheet.interpret f cell = .ok x)
    (hexact : ∀ target y, sheet.Refers cell target → f target = .ok y →
      Represents y (v target)) : ∃ n, sheet.Yields v cell n ∧ Represents x n := by
  have hoperand : ∀ {formula operand y}, sheet.HasFormula cell formula →
      operand ∈ formula.operands → sheet.interpretOperand f operand = .ok y →
      ∃ n, sheet.Amounts v operand n ∧ Represents y n := by
    intro formula operand y hformula ho hy
    refine amounts_of_eq_ok hy fun target z hnames => hexact target z ?_
    exact ⟨formula, operand, hformula, ho, hnames⟩
  rcases interpret_eq_ok_iff.mp h with ⟨hblank, hx⟩ | hparse | ⟨operand, hformula, hvalue⟩ |
      ⟨left, operator, right, y, z, hformula, hleft, hright, hsafe, hx⟩
  · rw [hx]
    exact ⟨0, .blank hblank, Represents.zero⟩
  · obtain ⟨n, hx⟩ := Literal.represents hparse
    exact ⟨n, .literal hparse hx.toInt?_eq, hx⟩
  · obtain ⟨n, hn, hx⟩ := hoperand hformula List.mem_cons_self hvalue
    exact ⟨n, .formula hformula (.single hn), hx⟩
  · obtain ⟨m, hm, hy⟩ := hoperand hformula List.mem_cons_self hleft
    obtain ⟨n, hn, hz⟩ :=
      hoperand hformula (List.mem_cons_of_mem _ List.mem_cons_self) hright
    refine ⟨_, .formula hformula (.binary hm hn), ?_⟩
    rw [hx, Sign.combine_eq_ofInt hy hz operator]
    rw [Sign.combine_eq_ofInt hy hz operator] at hsafe
    exact represents_ofInt hsafe

/-! ## Exact values within the bound are found -/

theorem eq_ok_of_amounts (h : sheet.Amounts v operand n)
    (hexact : ∀ target, sheet.Names operand target →
      ∃ y, f target = .ok y ∧ Represents y (v target)) :
    ∃ x, sheet.interpretOperand f operand = .ok x ∧ Represents x n := by
  cases h with
  | @literal y m hparse hvalue =>
    obtain ⟨k, hy⟩ := Term.represents hparse
    have hread : sheet.interpretOperand f operand = .ok (operand.sign.apply y) :=
      interpretOperand_eq_ok_iff.mpr (.inl ⟨y, hparse, rfl⟩)
    exact ⟨_, hread, Sign.represents_apply (hy.of_toInt? hvalue) _⟩
  | @reference target hnames =>
    obtain ⟨y, hvalue, hy⟩ := hexact target hnames
    have hread := interpretOperand_eq_ok_iff.mpr (.inr ⟨target, y, hnames, hvalue, rfl⟩)
    exact ⟨_, hread, Sign.represents_apply hy _⟩

/-- From exact values, an exact result is found unless it is of two operands and too large. -/
theorem eq_ok_of_yields (h : sheet.Yields v cell n)
    (hbound : sheet.IsBinary cell → n.natAbs ≤ maxSafe)
    (hexact : ∀ target, sheet.Refers cell target →
      ∃ y, f target = .ok y ∧ Represents y (v target)) :
    ∃ x, sheet.interpret f cell = .ok x ∧ Represents x n := by
  have hoperand : ∀ {formula operand m}, sheet.HasFormula cell formula →
      operand ∈ formula.operands → sheet.Amounts v operand m →
      ∃ y, sheet.interpretOperand f operand = .ok y ∧ Represents y m := by
    intro formula operand m hformula ho hm
    refine eq_ok_of_amounts hm fun target hnames => hexact target ?_
    exact ⟨formula, operand, hformula, ho, hnames⟩
  cases h with
  | blank hblank =>
    exact ⟨0, interpret_eq_ok_iff.mpr (.inl ⟨hblank, rfl⟩), Represents.zero⟩
  | @literal y _ hparse hvalue =>
    obtain ⟨k, hy⟩ := Literal.represents hparse
    exact ⟨y, interpret_eq_ok_iff.mpr (.inr (.inl hparse)), hy.of_toInt? hvalue⟩
  | formula hformula hresults =>
    cases hresults with
    | @single operand _ hm =>
      obtain ⟨y, hvalue, hy⟩ := hoperand hformula List.mem_cons_self hm
      exact ⟨y, interpret_eq_ok_iff.mpr (.inr (.inr (.inl ⟨operand, hformula, hvalue⟩))), hy⟩
    | @binary left right operator m k hm hk =>
      obtain ⟨y, hleft, hy⟩ := hoperand hformula List.mem_cons_self hm
      obtain ⟨z, hright, hz⟩ :=
        hoperand hformula (List.mem_cons_of_mem _ List.mem_cons_self) hk
      -- The result is tested after rounding, and that decides the bound on the exact one.
      have hsum := Sign.combine_eq_ofInt hy hz operator
      have hsafe : (operator.combine y z).isSafe = true := by
        rw [hsum, isSafe_ofInt_iff]
        exact hbound ⟨left, operator, right, hformula⟩
      have hread := interpret_eq_ok_iff.mpr (.inr (.inr (.inr
        ⟨left, operator, right, y, z, hformula, hleft, hright, hsafe, rfl⟩)))
      refine ⟨_, hread, ?_⟩
      rw [hsum] at hsafe ⊢
      exact represents_ofInt hsafe

/-! ## The values of a sheet -/

/-- The exact value of a cell, where it has one. -/
def amount (sheet : Sheet) (cell : sheet.Member) : Int :=
  match sheet.naive [] cell with
  | .ok x => x.toInt?.getD 0
  | .error _ => 0

/-- A value that is found is exact and satisfies the equation of its cell. -/
theorem naive_exact {path : List sheet.Member} (h : sheet.naive path cell = .ok x) :
    Represents x (sheet.amount cell) ∧ sheet.Yields sheet.amount cell (sheet.amount cell) := by
  induction path, cell using naive.induct sheet generalizing x with
  | case1 path cell hmem =>
    rw [naive_of_mem hmem] at h
    cases h
  | case2 path cell hoff ih =>
    have hnil := naive_nil_eq_ok h
    rw [naive_of_not_mem hoff] at h
    obtain ⟨n, hn, hx⟩ := yields_of_eq_ok h fun target y _ hy => (ih target hy).1
    have hamount : sheet.amount cell = n := by
      unfold amount
      rw [hnil]
      simp only [hx.toInt?_eq, Option.getD_some]
    rw [hamount]
    exact ⟨hx, hn⟩

end Sheet
end Worksheet
