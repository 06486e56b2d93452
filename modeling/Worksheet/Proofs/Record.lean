/-
Records as what is left of a run of writes.

A record is built by writing fields, and a field that is written later covers the one that was
written under the same key before.  `Holds written fields` says what is left: under each key the
value that was written last, with list indexes first, in ascending order, and then the other keys
in the order in which they were first written.  One write keeps this (`Holds.set`), so a run of
writes does (`Holds.merge`).

There is only one such record (`Holds.unique`), so two ways to write are compared by what they
write and not step by step.  A record with its keys in order is what writing its fields gives
(`ofFields_eq_self`), and fields may be gathered in a record of their own before they are written
to another one (`merge_ofFields`).
-/
import Worksheet.Value.Basic
import Mathlib.Data.List.Nodup

namespace Worksheet
namespace Record

variable {written fields older newer : Record} {key later other : String} {value : Value}

/-! ## Keys -/

def keys (fields : Record) : List String := fields.map Prod.fst

theorem keys_cons (field : String × Value) (fields : Record) :
    keys (field :: fields) = field.1 :: keys fields := rfl

theorem keys_append (first second : Record) :
    keys (first ++ second) = keys first ++ keys second := List.map_append

theorem get?_nil (key : String) : get? [] key = none := rfl

theorem get?_cons (name : String) (value : Value) (rest : Record) (key : String) :
    get? ((name, value) :: rest) key = if key = name then some value else get? rest key := by
  rw [get?, List.lookup_cons]
  by_cases h : key = name
  · rw [if_pos h, beq_iff_eq.mpr h]
  · rw [if_neg h, beq_eq_false_iff_ne.mpr h]
    rfl

theorem get?_append (first second : Record) (key : String) :
    get? (first ++ second) key = (get? first key).or (get? second key) :=
  List.lookup_append

theorem mem_of_lookup_eq_some {α : Type} {entries : List (String × α)} {held : α}
    (h : entries.lookup key = some held) : (key, held) ∈ entries := by
  obtain ⟨front, back, rfl, -⟩ := List.lookup_eq_some_iff.mp h
  exact List.mem_append_right front List.mem_cons_self

theorem get?_eq_none_iff : get? fields key = none ↔ key ∉ keys fields := by
  rw [get?, List.lookup_eq_none_iff, keys, List.mem_map]
  simp only [bne_iff_ne, not_exists, not_and]
  exact forall₂_congr fun field _ => ne_comm

theorem mem_keys_iff_of_get?_eq (h : get? fields key = get? written key) :
    key ∈ keys fields ↔ key ∈ keys written := by
  rw [← not_iff_not, ← get?_eq_none_iff, ← get?_eq_none_iff, h]

/-! ## The order of keys -/

/-- The order of two keys after keys were written one after the other: list indexes in ascending
order, and behind them the other keys as they were first written. -/
def Comes (written : List String) (key later : String) : Prop :=
  match index? key, index? later with
  | some m, some n => m < n
  | some _, none => True
  | none, some _ => False
  | none, none => written.idxOf key < written.idxOf later

/-- Two keys do not spell the same index. -/
theorem index?_injective {n : Nat} (h : index? key = some n) (hother : index? other = some n) :
    key = other := by
  have hdigits : ∀ name, index? name = some n → name.toList = Decimal.digitsOf n := by
    intro name hname
    simp only [index?] at hname
    split at hname
    · split at hname
      · rename_i hcanonical
        cases hname
        exact hcanonical.1.symm
      · cases hname
    · cases hname
  exact String.toList_inj.mp ((hdigits key h).trans (hdigits other hother).symm)

section Order

variable {names more : List String} {a b c : String}

theorem Comes.ne (h : Comes names a b) : a ≠ b := by
  rintro rfl
  unfold Comes at h
  cases hindex : index? a <;> simp [hindex] at h

theorem Comes.trans (h : Comes names a b) (h' : Comes names b c) : Comes names a c := by
  unfold Comes at *
  cases ha : index? a <;> cases hb : index? b <;> cases hc : index? c <;>
    simp only [ha, hb, hc] at * <;> omega

/-- A key is never written in front of one that comes before it. -/
theorem Comes.not_precedes (h : Comes names a b) : precedes b a = false := by
  unfold Comes at h
  unfold precedes
  cases ha : index? a <;> cases hb : index? b <;> simp only [ha, hb] at *
  rw [decide_eq_false_iff_not]
  omega

theorem comes_of_precedes (names : List String) (h : precedes a b = true) : Comes names a b := by
  unfold precedes at h
  unfold Comes
  cases ha : index? a <;> cases hb : index? b <;> simp only [ha, hb] at * <;>
    first | exact Bool.noConfusion h | exact of_decide_eq_true h

theorem comes_of_not_precedes (hne : a ≠ b) (h : precedes b a = false)
    (hplace : names.idxOf a < names.idxOf b) : Comes names a b := by
  unfold precedes at h
  unfold Comes
  cases ha : index? a with
  | none =>
    cases hb : index? b with
    | none => exact hplace
    | some n => simp [ha, hb] at h
  | some m =>
    cases hb : index? b with
    | none => trivial
    | some n =>
      have hle : ¬ n < m := by simpa [ha, hb] using h
      have hdiffer : m ≠ n := fun heq => hne (index?_injective ha (heq ▸ hb))
      show m < n
      omega

theorem Comes.idxOf_lt (h : Comes names a b) (ha : index? a = none) (hb : index? b = none) :
    names.idxOf a < names.idxOf b := by
  unfold Comes at h
  rwa [ha, hb] at h

/-- Only the places of keys that are no index matter. -/
theorem Comes.congr (h : Comes names a b) (hplace : index? a = none → index? b = none →
    names.idxOf a < names.idxOf b → more.idxOf a < more.idxOf b) : Comes more a b := by
  unfold Comes at h ⊢
  cases ha : index? a <;> cases hb : index? b <;> simp only [ha, hb] at h ⊢
  · exact hplace ha hb h
  · exact h

/-- Keys that are written later do not move those that were written before. -/
theorem Comes.append (h : Comes names a b) (ha : a ∈ names) (hb : b ∈ names)
    (more : List String) : Comes (names ++ more) a b := by
  refine h.congr fun _ _ hlt => ?_
  rw [List.idxOf_append_of_mem ha, List.idxOf_append_of_mem hb]
  exact hlt

theorem nodup_of_comes (h : names.Pairwise (Comes more)) : names.Nodup :=
  h.imp Comes.ne

theorem comes_of_idxOf_lt (h : names.Pairwise (Comes more)) (ha : a ∈ names) (hb : b ∈ names)
    (hlt : names.idxOf a < names.idxOf b) : Comes more a b := by
  have hpair := List.pairwise_iff_getElem.mp h (names.idxOf a) (names.idxOf b)
    (List.idxOf_lt_length_of_mem ha) (List.idxOf_lt_length_of_mem hb) hlt
  rwa [List.getElem_idxOf, List.getElem_idxOf] at hpair

/-- A new key is behind those that it does not precede. -/
theorem comes_concat (ha : a ∈ names) (hb : b ∉ names) (h : precedes b a = false) :
    Comes (names ++ [b]) a b := by
  refine comes_of_not_precedes (fun heq => hb (heq ▸ ha)) h ?_
  rw [List.idxOf_append_of_mem ha, List.idxOf_append_of_notMem hb]
  exact Nat.lt_add_right _ (List.idxOf_lt_length_of_mem ha)

/-- A key that precedes the first of some keys in order comes before all of them. -/
theorem comes_of_head? (h : names.Pairwise (Comes more))
    (hhead : ∀ name ∈ names.head?, precedes a name = true) : ∀ name ∈ names, Comes more a name := by
  cases names with
  | nil => exact fun _ hname => absurd hname List.not_mem_nil
  | cons first rest =>
    have hfirst : Comes more a first := comes_of_precedes more (hhead first rfl)
    exact List.forall_mem_cons.mpr ⟨hfirst, fun name hname =>
      hfirst.trans ((List.pairwise_cons.mp h).1 name hname)⟩

theorem pairwise_insert {front back : List String}
    (h : (front ++ back).Pairwise (Comes more)) (hfront : ∀ name ∈ front, Comes more name a)
    (hback : ∀ name ∈ back, Comes more a name) :
    (front ++ a :: back).Pairwise (Comes more) := by
  obtain ⟨hbefore, hbehind, hacross⟩ := List.pairwise_append.mp h
  exact List.pairwise_append.mpr ⟨hbefore, List.pairwise_cons.mpr ⟨hback, hbehind⟩,
    fun name hname => List.forall_mem_cons.mpr ⟨hfront name hname, hacross name hname⟩⟩

end Order

/-! ## One write -/

theorem keys_set_of_mem (horder : (keys fields).Pairwise (Comes (keys written)))
    (hmem : key ∈ keys fields) (value : Value) : keys (fields.set key value) = keys fields := by
  induction fields with
  | nil => exact absurd hmem List.not_mem_nil
  | cons field rest ih =>
    obtain ⟨hfirst, hrest⟩ := List.pairwise_cons.mp horder
    rw [set]
    by_cases heq : field.1 = key
    · rw [if_pos heq]
      rfl
    · have hmem' : key ∈ keys rest := (List.mem_cons.mp hmem).resolve_left fun h => heq h.symm
      have hstays : precedes key field.1 = false := (hfirst key hmem').not_precedes
      rw [if_neg heq, hstays, if_neg Bool.false_ne_true, keys_cons, ih hrest hmem', keys_cons]

/-- A new key goes behind all that it does not precede, up to the first that it precedes. -/
theorem exists_set_eq (hnew : key ∉ keys fields) (value : Value) :
    ∃ front back, fields = front ++ back ∧ fields.set key value = front ++ (key, value) :: back ∧
      (∀ name ∈ keys front, precedes key name = false) ∧
      ∀ name ∈ (keys back).head?, precedes key name = true := by
  induction fields with
  | nil => exact ⟨[], [], rfl, rfl, by simp [keys], by simp [keys]⟩
  | cons field rest ih =>
    obtain ⟨hne, hrest⟩ := not_or.mp (mt List.mem_cons.mpr hnew)
    rw [set, if_neg (Ne.symm hne)]
    cases hprecedes : precedes key field.1 with
    | true =>
      refine ⟨[], field :: rest, rfl, if_pos rfl, by simp [keys], ?_⟩
      intro name hname
      cases hname
      exact hprecedes
    | false =>
      obtain ⟨front, back, hsplit, hset, hfront, hback⟩ := ih hrest
      refine ⟨field :: front, back, by rw [hsplit]; rfl, ?_, ?_, hback⟩
      · rw [if_neg Bool.false_ne_true, hset]
        rfl
      · exact List.forall_mem_cons.mpr ⟨hprecedes, hfront⟩

theorem mem_of_mem_set {field : String × Value} (h : field ∈ fields.set key value) :
    field = (key, value) ∨ field ∈ fields := by
  induction fields with
  | nil => exact .inl (List.mem_singleton.mp h)
  | cons first rest ih =>
    rw [set] at h
    split at h
    · rename_i heq
      exact (List.mem_cons.mp h).imp (fun hfield => heq ▸ hfield) (List.mem_cons_of_mem _)
    · split at h
      · exact List.mem_cons.mp h
      · rcases List.mem_cons.mp h with hfirst | hrest
        · exact .inr (hfirst ▸ List.mem_cons_self)
        · exact (ih hrest).imp_right (List.mem_cons_of_mem _)

/-! ## A run of writes -/

/-- What is left after fields were written one after the other: the last value under each key, in
the order of the keys. -/
structure Holds (written fields : Record) : Prop where
  value : ∀ key, get? fields key = get? written.reverse key
  order : (keys fields).Pairwise (Comes (keys written))

theorem holds_nil : Holds [] [] := ⟨fun _ => rfl, .nil⟩

theorem mem_keys_reverse : key ∈ keys written.reverse ↔ key ∈ keys written := by
  rw [keys, List.map_reverse, List.mem_reverse, keys]

theorem Holds.mem_keys_iff (h : Holds written fields) : key ∈ keys fields ↔ key ∈ keys written :=
  (mem_keys_iff_of_get?_eq (h.value key)).trans mem_keys_reverse

theorem Holds.get?_set (h : Holds written fields) (key : String) (value : Value)
    (other : String) :
    get? (fields.set key value) other = get? (written ++ [(key, value)]).reverse other := by
  rw [List.reverse_append, List.reverse_singleton, List.singleton_append, get?_cons]
  by_cases heq : other = key
  · rw [if_pos heq, heq, get?_set_self]
  · rw [if_neg heq, get?_set_of_ne heq, h.value]

/-- The order after one more write.  A key that was written before keeps its place; a new one is
behind all others unless it is an index. -/
theorem Holds.order_set (h : Holds written fields) (key : String) (value : Value) :
    (keys (fields.set key value)).Pairwise (Comes (keys (written ++ [(key, value)]))) := by
  have hkept : (keys fields).Pairwise (Comes (keys written ++ [key])) :=
    h.order.imp_of_mem fun ha hb hcomes =>
      hcomes.append (h.mem_keys_iff.mp ha) (h.mem_keys_iff.mp hb) _
  rw [keys_append]
  by_cases hmem : key ∈ keys fields
  · rw [keys_set_of_mem h.order hmem]
    exact hkept
  · obtain ⟨front, back, hsplit, hset, hfront, hback⟩ := exists_set_eq hmem value
    rw [hsplit, keys_append] at hkept
    rw [hset, keys_append, keys_cons]
    refine pairwise_insert hkept (fun name hname => ?_) ?_
    · have hin : name ∈ keys fields := by
        rw [hsplit, keys_append]
        exact List.mem_append_left _ hname
      exact comes_concat (h.mem_keys_iff.mp hin) (mt h.mem_keys_iff.mpr hmem) (hfront name hname)
    · exact comes_of_head? (List.pairwise_append.mp hkept).2.1 hback

/-- The step lemma: one more write. -/
theorem Holds.set (h : Holds written fields) (key : String) (value : Value) :
    Holds (written ++ [(key, value)]) (fields.set key value) :=
  ⟨h.get?_set key value, h.order_set key value⟩

/-- The run lemma: more writes. -/
theorem Holds.merge (h : Holds written fields) (newer : Record) :
    Holds (written ++ newer) (fields.merge newer) := by
  induction newer generalizing written fields with
  | nil =>
    rw [List.append_nil]
    exact h
  | cons field newer ih =>
    rw [merge_cons, ← List.singleton_append, ← List.append_assoc]
    exact ih (h.set field.1 field.2)

theorem holds_ofFields (writes : Record) : Holds writes (ofFields writes) :=
  holds_nil.merge writes

/-! ## There is one such record -/

theorem ext_of_keys {first second : Record} (hnodup : (keys first).Nodup)
    (hkeys : keys first = keys second) (h : ∀ key, get? first key = get? second key) :
    first = second := by
  induction first generalizing second with
  | nil =>
    cases second with
    | nil => rfl
    | cons field rest => cases hkeys
  | cons field rest ih =>
    cases second with
    | nil => cases hkeys
    | cons field' rest' =>
      obtain ⟨name, value⟩ := field
      obtain ⟨name', value'⟩ := field'
      obtain ⟨hname, hrest⟩ := List.cons_eq_cons.mp hkeys
      obtain ⟨hnew, hnodup'⟩ := List.nodup_cons.mp hnodup
      cases hname
      have hvalue : value = value' := by
        have hhead := h name
        rw [get?_cons, get?_cons, if_pos rfl, if_pos rfl] at hhead
        exact Option.some.inj hhead
      have htail : ∀ key, get? rest key = get? rest' key := by
        intro key
        by_cases heq : key = name
        · have hnew' : name ∉ keys rest' := fun hin => hnew (hrest ▸ hin)
          rw [heq, get?_eq_none_iff.mpr hnew, get?_eq_none_iff.mpr hnew']
        · have hat := h key
          rwa [get?_cons, get?_cons, if_neg heq, if_neg heq] at hat
      rw [hvalue, ih hnodup' hrest htail]

theorem Holds.unique {fields' : Record} (h : Holds written fields) (h' : Holds written fields') :
    fields = fields' := by
  have hnodup := nodup_of_comes h.order
  have hperm : (keys fields).Perm (keys fields') :=
    (List.perm_ext_iff_of_nodup hnodup (nodup_of_comes h'.order)).mpr fun key =>
      h.mem_keys_iff.trans h'.mem_keys_iff.symm
  have hkeys : keys fields = keys fields' :=
    hperm.eq_of_pairwise (fun _ _ _ _ hab hba => absurd rfl (hab.trans hba).ne) h.order h'.order
  exact ext_of_keys hnodup hkeys fun key => (h.value key).trans (h'.value key).symm

/-! ## Records in order -/

/-- The fields are in order, and no key is there twice.  Every record that is built by writing is
of this kind. -/
def Proper (fields : Record) : Prop :=
  (keys fields).Pairwise fun key later => key ≠ later ∧ precedes later key = false

instance (fields : Record) : Decidable (Proper fields) :=
  inferInstanceAs (Decidable (List.Pairwise _ _))

theorem Holds.proper (h : Holds written fields) : Proper fields :=
  h.order.imp fun hcomes => ⟨hcomes.ne, hcomes.not_precedes⟩

theorem proper_ofFields (writes : Record) : Proper (ofFields writes) :=
  (holds_ofFields writes).proper

theorem Proper.nodup (h : Proper fields) : (keys fields).Nodup := h.imp And.left

theorem Proper.of_sublist {part : Record} (h : Proper fields)
    (hpart : (keys part).Sublist (keys fields)) : Proper part := List.Pairwise.sublist hpart h

/-- The first of the values under a key is the only one. -/
theorem Proper.get?_reverse (h : Proper fields) (key : String) :
    get? fields.reverse key = get? fields key := by
  induction fields with
  | nil => rfl
  | cons field rest ih =>
    obtain ⟨name, value⟩ := field
    have hrest : Proper rest := (List.pairwise_cons.mp h).2
    have hnew : name ∉ keys rest := (List.nodup_cons.mp h.nodup).1
    rw [List.reverse_cons, get?_append, ih hrest, get?_cons, get?_cons, get?_nil]
    by_cases heq : key = name
    · rw [if_pos heq, if_pos heq, heq, get?_eq_none_iff.mpr hnew, Option.none_or]
    · rw [if_neg heq, if_neg heq, Option.or_none]

theorem Proper.holds (h : Proper fields) : Holds fields fields where
  value key := (h.get?_reverse key).symm
  order := by
    refine List.pairwise_iff_getElem.mpr fun i j hi hj hlt => ?_
    obtain ⟨hne, hstays⟩ := List.pairwise_iff_getElem.mp h i j hi hj hlt
    refine comes_of_not_precedes hne hstays ?_
    rw [h.nodup.idxOf_getElem i hi, h.nodup.idxOf_getElem j hj]
    exact hlt

theorem Proper.merge (h : Proper older) (newer : Record) : Proper (older.merge newer) :=
  (h.holds.merge newer).proper

/-- Writing the fields of a record that is in order gives that record. -/
theorem ofFields_eq_self (h : Proper fields) : ofFields fields = fields :=
  (holds_ofFields fields).unique h.holds

/-! ## Merging -/

theorem mem_of_mem_merge {field : String × Value} (h : field ∈ older.merge newer) :
    field ∈ older ∨ field ∈ newer := by
  induction newer generalizing older with
  | nil => exact .inl h
  | cons first newer ih =>
    rcases ih h with hset | hnewer
    · rcases mem_of_mem_set hset with hfirst | holder
      · exact .inr (hfirst ▸ List.mem_cons_self)
      · exact .inl holder
    · exact .inr (List.mem_cons_of_mem _ hnewer)

theorem idxOf_append_lt {names more more' : List String} {a b : String} (ha : a ∈ names ++ more)
    (hb : b ∈ names ++ more) (hmore : a ∈ more → b ∈ more → more.idxOf a < more.idxOf b →
      more'.idxOf a < more'.idxOf b) (hlt : (names ++ more).idxOf a < (names ++ more).idxOf b) :
    (names ++ more').idxOf a < (names ++ more').idxOf b := by
  by_cases hina : a ∈ names <;> by_cases hinb : b ∈ names
  · rw [List.idxOf_append_of_mem hina, List.idxOf_append_of_mem hinb] at *
    exact hlt
  · rw [List.idxOf_append_of_mem hina, List.idxOf_append_of_notMem hinb]
    exact Nat.lt_add_right _ (List.idxOf_lt_length_of_mem hina)
  · rw [List.idxOf_append_of_notMem hina, List.idxOf_append_of_mem hinb] at hlt
    have hbound := List.idxOf_lt_length_of_mem hinb
    omega
  · rw [List.idxOf_append_of_notMem hina, List.idxOf_append_of_notMem hinb] at *
    have hmorea := (List.mem_append.mp ha).resolve_left hina
    have hmoreb := (List.mem_append.mp hb).resolve_left hinb
    have hlt' := hmore hmorea hmoreb (by omega)
    omega

/-- Fields that were gathered in a record first leave what they leave when they are written one by
one. -/
theorem Holds.of_gathered {gathered : Record} (h : Holds (older ++ gathered) fields)
    (hgathered : Holds newer gathered) : Holds (older ++ newer) fields where
  value key := by
    rw [h.value, List.reverse_append, List.reverse_append, get?_append, get?_append,
      hgathered.proper.get?_reverse, hgathered.value]
  order := by
    refine h.order.imp_of_mem fun {a b} ha hb hcomes => hcomes.congr fun hindexa hindexb => ?_
    rw [h.mem_keys_iff, keys_append] at ha hb
    rw [keys_append, keys_append]
    exact idxOf_append_lt ha hb fun hina hinb hlt =>
      (comes_of_idxOf_lt hgathered.order hina hinb hlt).idxOf_lt hindexa hindexb

theorem merge_ofFields (h : Proper older) (newer : Record) :
    older.merge (ofFields newer) = older.merge newer :=
  ((h.holds.merge (ofFields newer)).of_gathered (holds_ofFields newer)).unique
    (h.holds.merge newer)

end Record
end Worksheet
