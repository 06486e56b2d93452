/-
The context of a child of a child.

A child adds to the context of its parent, so the last logger of a chain has what was left after
all contexts of the chain were written over the one of the root (`context_descend`).  What is left
of a run of writes is known (`Record.Holds`); here it is said in terms of the contexts
(`Record.Accumulates`): a key is shown if some context set it, with the value of the last one that
did, an explicit absence included.

Only what is left matters for what is written, and it is the same if the contexts are merged with
each other first.  So the chain can be replaced by one child with the merged contexts.  The time
at which that child is made may differ, and it shows in figures of performance only.
-/
import Worksheet.Proofs.Log.Notice

namespace Worksheet

/-! ## What several records leave -/

namespace Record

variable {contexts : List Record} {fields : Record} {key : String} {value : Value}

theorem get?_eq_some_of_mem (hnodup : (keys fields).Nodup) (h : (key, value) ∈ fields) :
    get? fields key = some value := by
  induction fields with
  | nil => exact absurd h List.not_mem_nil
  | cons field rest ih =>
    obtain ⟨name, held⟩ := field
    obtain ⟨hnew, hnodup'⟩ := List.nodup_cons.mp hnodup
    rw [get?_cons]
    rcases List.mem_cons.mp h with heq | hrest
    · cases heq
      exact if_pos rfl
    · have hkey : key ∈ keys rest := List.mem_map_of_mem hrest
      have hne : key ≠ name := fun heq => hnew (heq ▸ hkey)
      rw [if_neg hne]
      exact ih hnodup' hrest

theorem mem_keys_flatten :
    key ∈ keys contexts.flatten ↔ ∃ context ∈ contexts, key ∈ keys context := by
  rw [keys, List.map_flatten, List.mem_flatten]
  constructor
  · rintro ⟨names, hnames, hkey⟩
    obtain ⟨context, hcontext, rfl⟩ := List.mem_map.mp hnames
    exact ⟨context, hcontext, hkey⟩
  · rintro ⟨context, hcontext, hkey⟩
    exact ⟨keys context, List.mem_map_of_mem hcontext, hkey⟩

/-- The last of the records that set the key set it to the value. -/
def LastSet (contexts : List Record) (key : String) (value : Value) : Prop :=
  ∃ earlier context later, contexts = earlier ++ context :: later ∧ (key, value) ∈ context ∧
    ∀ other ∈ later, key ∉ keys other

theorem lastSet_of_get?_reverse (h : get? contexts.flatten.reverse key = some value) :
    LastSet contexts key value := by
  induction contexts with
  | nil => cases h
  | cons context rest ih =>
    rw [List.flatten_cons, List.reverse_append, get?_append] at h
    cases hlater : get? rest.flatten.reverse key with
    | some held =>
      rw [hlater, Option.some_or] at h
      obtain ⟨earlier, last, later, hsplit, hmem, hnone⟩ := ih (hlater.trans h)
      exact ⟨context :: earlier, last, later, congrArg (context :: ·) hsplit, hmem, hnone⟩
    | none =>
      rw [hlater, Option.none_or] at h
      refine ⟨[], context, rest, rfl, List.mem_reverse.mp (mem_of_lookup_eq_some h), ?_⟩
      intro other hother hkey
      have hset : key ∈ keys rest.flatten := mem_keys_flatten.mpr ⟨other, hother, hkey⟩
      exact get?_eq_none_iff.mp hlater (mem_keys_reverse.mpr hset)

/-- What records leave that are written over each other: the keys that any of them sets, each with
the value of the last one that does, list indexes first and the others as they were first set. -/
structure Accumulates (contexts : List Record) (fields : Record) : Prop where
  keys_iff : ∀ key, key ∈ keys fields ↔ ∃ context ∈ contexts, key ∈ keys context
  value : ∀ key value, (key, value) ∈ fields → LastSet contexts key value
  order : (keys fields).Pairwise (Comes (keys contexts.flatten))

theorem Holds.accumulates (h : Holds contexts.flatten fields) : Accumulates contexts fields where
  keys_iff key := h.mem_keys_iff.trans mem_keys_flatten
  value key value hmem := by
    have hget := get?_eq_some_of_mem (nodup_of_comes h.order) hmem
    exact lastSet_of_get?_reverse ((h.value key).symm.trans hget)
  order := h.order

theorem foldl_merge (older : Record) (contexts : List Record) :
    contexts.foldl merge older = older.merge contexts.flatten := by
  induction contexts generalizing older with
  | nil => rfl
  | cons context rest ih => rw [List.foldl_cons, ih, List.flatten_cons, merge_append]

end Record

/-! ## Chains of children -/

namespace Logger

/-- The last logger of a chain of children, each made on a host with a context of its own. -/
def descend (root : Logger) (chain : List (Host × Record)) : Logger :=
  chain.foldl (fun parent link => parent.child link.1 link.2) root

variable (root : Logger) (chain : List (Host × Record)) (host : Host) (call : Call)

theorem config_descend : (root.descend chain).config = root.config := by
  induction chain generalizing root with
  | nil => rfl
  | cons link rest ih => exact ih (root.child link.1 link.2)

theorem context_descend :
    (root.descend chain).context = root.context.merge (chain.map Prod.snd).flatten := by
  induction chain generalizing root with
  | nil => rfl
  | cons link rest ih =>
    rw [List.map_cons, List.flatten_cons, Record.merge_append]
    exact ih (root.child link.1 link.2)

theorem holds_descend (hproper : Record.Proper root.context) :
    Record.Holds (root.context :: chain.map Prod.snd).flatten (root.descend chain).context := by
  rw [context_descend, List.flatten_cons]
  exact hproper.holds.merge _

/-- What is written depends on the configuration and the context, and on the time at which the
logger was made only if there are figures of performance. -/
theorem perform_congr {logger logger' : Logger} (hconfig : logger.config = logger'.config)
    (hcontext : logger.context = logger'.context)
    (hstarted : logger.config.showPerformance = false ∨ logger.started = logger'.started) :
    logger.perform host call = logger'.perform host call := by
  have hfigures : logger.performance host = logger'.performance host := by
    rw [performance, performance, ← hconfig]
    rcases hstarted with hoff | hsame
    · rw [hoff]
      rfl
    · rw [hsame]
  have hshown : logger.shownContext = logger'.shownContext := by
    rw [shownContext, shownContext, shown, shown, hconfig, hcontext]
  have hmetadata : logger.shownMetadata call.metadata = logger'.shownMetadata call.metadata := by
    rw [shownMetadata, shownMetadata, shown, shown, hconfig]
  have hentry : logger.entryOf host call = logger'.entryOf host call := by
    rw [entryOf, entryOf, entry, entry, hfigures, hshown, hmetadata, hconfig]
  rw [perform_eq, perform_eq, hentry, textOf, textOf, writes, writes, hconfig]

/-- Where nothing is taken out, the context of an entry is the one of the logger, unless that is
empty. -/
theorem context_entryOf (hshow : root.config.showContext = true)
    (hsanitize : root.config.sanitize = false) :
    (root.entryOf host call).context =
      if root.context = [] then none else some (.record root.context) := by
  show root.shownContext = _
  rw [shownContext, shown, hsanitize, if_neg Bool.false_ne_true]
  by_cases hempty : root.context = []
  · rw [if_pos hempty, hempty, if_neg fun h => h.2 rfl]
  · rw [if_neg hempty, if_pos ⟨hshow, fun h => hempty (List.isEmpty_iff.mp h)⟩]

/-- An entry shows what the contexts of a chain leave, or no context if they are all empty. -/
def ShowsContexts (contexts : List Record) (shown : Option Value) : Prop :=
  shown = none ∧ (∀ context ∈ contexts, context = []) ∨
    ∃ fields, shown = some (.record fields) ∧ fields ≠ [] ∧ Record.Accumulates contexts fields

theorem showsContexts_descend (hproper : Record.Proper root.context)
    (hshow : root.config.showContext = true) (hsanitize : root.config.sanitize = false) :
    ShowsContexts (root.context :: chain.map Prod.snd)
      ((root.descend chain).entryOf host call).context := by
  have hconfig := root.config_descend chain
  have hholds := root.holds_descend chain hproper
  have hcontext := (root.descend chain).context_entryOf host call (hconfig ▸ hshow)
    (hconfig ▸ hsanitize)
  by_cases hempty : (root.descend chain).context = []
  · refine .inl ⟨hcontext.trans (if_pos hempty), fun context hin => ?_⟩
    rw [hempty] at hholds
    cases context with
    | nil => rfl
    | cons field rest =>
      have hkey := (hholds.accumulates.keys_iff field.1).mpr ⟨_, hin, List.mem_cons_self⟩
      exact absurd hkey List.not_mem_nil
  · exact .inr ⟨_, hcontext.trans (if_neg hempty), hempty, hholds.accumulates⟩

/-- The last of a chain of children is configured as the root, so that it writes its entries at the
level and in the layout of the root.  The entries show all that the root and its descendants ever
put into their contexts, and it writes what one child writes that is given the contexts merged in
advance. -/
theorem descend_exact (hproper : Record.Proper root.context) :
    (root.descend chain).config = root.config ∧
    (root.descend chain).perform host call = (if root.writes call.level.value then
      [⟨call.level.stream, root.textOf host ((root.descend chain).entryOf host call).toValue⟩]
      else []) ∧
    (root.config.showContext = true → root.config.sanitize = false →
      ShowsContexts (root.context :: chain.map Prod.snd)
        ((root.descend chain).entryOf host call).context) ∧
    ∀ maker : Host,
      root.config.showPerformance = false ∨ (root.descend chain).started = maker.clock →
        (root.descend chain).perform host call =
          (root.child maker ((chain.map Prod.snd).foldl Record.merge [])).perform host call := by
  have hconfig := root.config_descend chain
  have hwritten := (root.descend chain).perform_eq host call
  rw [writes, textOf, hconfig] at hwritten
  refine ⟨hconfig, hwritten, root.showsContexts_descend chain host call hproper,
    fun maker hstarted => ?_⟩
  refine perform_congr host call hconfig ?_ (hconfig ▸ hstarted)
  rw [context_descend, Record.foldl_merge]
  exact (Record.merge_ofFields hproper _).symm

/-- A root and two descendants: an index that comes late is shown first, an absence covers a value,
and the job of the last one is shown at the place of the first. -/
theorem descend_exact_two_children :
    let host : Host := ⟨"host", 1, 0, [], 0, 0⟩
    let root : Logger := ⟨⟨Level.info.value, .json, false, true, false, "sheets", none⟩,
      Record.ofFields [("user", .string "ann"), ("10", .null)], 0⟩
    let chain := [(host, [("2", .boolean true), ("user", .absent), ("job", .string "a")]),
      (host.advance 5, [("job", .string "b")])]
    let call := Call.write .warn "slow" .absent
    Record.Proper root.context ∧
      ((root.descend chain).entryOf host call).context = some (.record
        [("2", .boolean true), ("10", .null), ("user", .absent), ("job", .string "b")]) ∧
      (root.descend chain).perform host call = [⟨.warn,
        root.textOf host ((root.descend chain).entryOf host call).toValue⟩] ∧
      (root.descend chain).perform host call =
        (root.child host [("2", .boolean true), ("user", .absent), ("job", .string "b")]).perform
          host call := by
  intro host root chain call
  have hproper : Record.Proper root.context := Record.proper_ofFields _
  have hwrites : root.writes call.level.value = true := by decide +kernel
  obtain ⟨-, hwritten, -, hmerged⟩ := descend_exact root chain host call hproper
  exact ⟨hproper, rfl, hwritten.trans (if_pos hwrites), hmerged host (.inl rfl)⟩

end Logger
end Worksheet
