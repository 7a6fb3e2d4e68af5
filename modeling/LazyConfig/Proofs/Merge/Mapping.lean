import LazyConfig.Proofs.Evaluation.Steps

/-!
# What a merge has under its keys

A mapping is its keys, in their order, and what it has under each of them. Both are given here for
the merge of two mappings: the keys of the update that are new follow those of the base, and under a
key there is the merge of what both have if these are mappings again, otherwise what the update has,
or else what the base has.
-/

namespace LazyConfig.Value

/-! ### Mappings -/

def isMapping : Value → Bool
  | dict _ _ => true
  | _ => false

/-- The entries of a mapping; other values have none. -/
def entries : Value → List (String × Value)
  | dict entries _ => entries
  | _ => []

def keys (v : Value) : List String := v.entries.map Prod.fst

/-- What a mapping has under a key. -/
def at? (v : Value) (key : String) : Option Value := v.entries.lookup key

theorem exists_dict {v : Value} (mapping : v.isMapping = true) :
    ∃ entries mark, v = dict entries mark := by
  cases v with
  | dict entries mark => exact ⟨entries, mark, rfl⟩
  | _ => cases mapping

/-- Every mapping in the value, however deep it stands in others, has each of its keys once. -/
inductive Keyed : Value → Prop
  | other {v : Value} (other : v.isMapping = false) : Keyed v
  | dict {entries : List (String × Value)} {mark : Mark} (distinct : (entries.map Prod.fst).Nodup)
      (parts : ∀ entry ∈ entries, Keyed entry.2) : Keyed (dict entries mark)

/-- A mapping of values that are no mappings. -/
theorem Keyed.flat {entries : List (String × Value)} {mark : Mark}
    (distinct : (entries.map Prod.fst).Nodup)
    (others : ∀ entry ∈ entries, entry.2.isMapping = false) : Keyed (.dict entries mark) :=
  .dict distinct fun entry among => .other (others entry among)

theorem lookup_eq_none {entries : List (String × Value)} {key : String} :
    entries.lookup key = none ↔ key ∉ entries.map Prod.fst := by
  rw [List.lookup_eq_none_iff, List.mem_map]
  constructor
  · rintro differ ⟨entry, among, rfl⟩
    simpa using differ entry among
  · intro absent entry among
    exact bne_iff_ne.mpr fun same => absent ⟨entry, among, same.symm⟩

theorem at?_eq_none {v : Value} {key : String} : v.at? key = none ↔ key ∉ v.keys := lookup_eq_none

theorem Keyed.nodup {v : Value} (keyed : v.Keyed) : v.keys.Nodup := by
  cases keyed with
  | other other => cases v <;> first | exact List.nodup_nil | cases other
  | dict distinct => exact distinct

theorem Keyed.at? {v part : Value} {key : String} (keyed : v.Keyed)
    (found : v.at? key = some part) : part.Keyed := by
  cases keyed with
  | other other => cases v <;> first | cases found | cases other
  | dict _ parts =>
    obtain ⟨entry, among, rfl⟩ := Evaluation.mem_of_lookup found
    exact parts entry among

/-- What a mapping has is smaller than the mapping. -/
theorem sizeOf_at? {v part : Value} {key : String} (found : v.at? key = some part) :
    sizeOf part < sizeOf v := by
  cases v with
  | dict entries mark =>
    obtain ⟨⟨_, _⟩, among, rfl⟩ := Evaluation.mem_of_lookup found
    have smaller := List.sizeOf_lt_of_mem among
    simp only [Prod.mk.sizeOf_spec] at smaller
    simp only [dict.sizeOf_spec]
    change _ < sizeOf entries at smaller
    omega
  | _ => cases found

/-- A fact about all values follows if each mapping has it from what it has under its keys. -/
theorem induction_at? {holds : Value → Prop}
    (step : ∀ v, (∀ key part, v.at? key = some part → holds part) → holds v) (v : Value) :
    holds v :=
  step v fun _ part found =>
    have := sizeOf_at? found
    induction_at? step part
termination_by sizeOf v

/-! ### Equal mappings -/

theorem entries_ext {first second : List (String × Value)}
    (distinct : (first.map Prod.fst).Nodup) (keys : first.map Prod.fst = second.map Prod.fst)
    (parts : ∀ key, first.lookup key = second.lookup key) : first = second := by
  induction first generalizing second with
  | nil => exact (List.map_eq_nil_iff.mp keys.symm).symm
  | cons entry first ih =>
    obtain ⟨key, v⟩ := entry
    obtain ⟨⟨other, w⟩, rest, rfl, same, sameKeys⟩ := List.map_eq_cons_iff.mp keys.symm
    obtain rfl : other = key := same
    obtain ⟨absent, distinct⟩ := List.nodup_cons.mp distinct
    have here := parts other
    simp only [List.lookup_cons, beq_self_eq_true] at here
    obtain rfl := Option.some.inj here
    rw [ih distinct sameKeys.symm]
    intro sought
    by_cases isFirst : sought = other
    · rw [isFirst, lookup_eq_none.mpr absent, lookup_eq_none.mpr (sameKeys ▸ absent)]
    · simpa only [List.lookup_cons, beq_false_of_ne isFirst] using parts sought

/-! ### The merge of two mappings -/

/-- What a merge has under a key, by what its base and its update have there. -/
def mergeParts : Option Value → Option Value → Option Value
  | base, none => base
  | none, some update => some update
  | some base, some update => some (merge base update)

/-- An update is copied as it is unless there are two mappings to merge. -/
theorem mergeValue_of_not_mapping {m : Type → Type} [Monad m] (copy : Value → m Value)
    {base : Option Value} {update : Value}
    (other : ¬ (base.any isMapping ∧ update.isMapping)) :
    mergeValue copy base update = copy update := by
  unfold mergeValue
  cases update with
  | dict updates mark =>
    cases base with
    | none => rfl
    | some base =>
      cases base with
      | dict entries own => exact absurd ⟨rfl, rfl⟩ other
      | _ => rfl
  | _ => rfl

theorem merge_of_not_mapping {base update : Value}
    (other : ¬ (base.isMapping ∧ update.isMapping)) : merge base update = update :=
  mergeValue_of_not_mapping (m := Id) pure other

theorem merge_dict (entries updates : List (String × Value)) (mark other : Mark) :
    merge (dict entries mark) (dict updates other) =
      dict (mergeEntries (m := Id) pure entries updates) mark := by
  unfold merge
  rw [mergeValue]
  rfl

theorem mergeEntries_cons (result : List (String × Value)) (key : String) (update : Value)
    (updates : List (String × Value)) :
    mergeEntries (m := Id) pure result ((key, update) :: updates) =
      mergeEntries (m := Id) pure
        (putEntry key (mergeValue (m := Id) pure (result.lookup key) update) result) updates := by
  rw [mergeEntries]
  rfl

theorem mergeValue_eq (base : Option Value) (update : Value) :
    some (mergeValue (m := Id) pure base update) = mergeParts base (some update) := by
  cases base with
  | some base => rfl
  | none => exact congrArg some (mergeValue_of_not_mapping (m := Id) pure (by simp))

theorem lookup_mergeEntries {updates : List (String × Value)}
    (distinct : (updates.map Prod.fst).Nodup) (result : List (String × Value)) (key : String) :
    (mergeEntries (m := Id) pure result updates).lookup key =
      mergeParts (result.lookup key) (updates.lookup key) := by
  induction updates generalizing result with
  | nil => rfl
  | cons entry updates ih =>
    obtain ⟨first, update⟩ := entry
    obtain ⟨absent, distinct⟩ := List.nodup_cons.mp distinct
    rw [mergeEntries_cons, ih distinct, lookup_putEntry, List.lookup_cons]
    by_cases same : key = first
    · subst same
      rw [if_pos rfl, beq_self_eq_true, lookup_eq_none.mpr absent]
      exact mergeValue_eq _ update
    · rw [if_neg same, beq_false_of_ne same]

theorem keys_mergeEntries {updates : List (String × Value)}
    (distinct : (updates.map Prod.fst).Nodup) (result : List (String × Value)) :
    (mergeEntries (m := Id) pure result updates).map Prod.fst =
      result.map Prod.fst ++
        (updates.map Prod.fst).filter (fun key => key ∉ result.map Prod.fst) := by
  induction updates generalizing result with
  | nil => exact (List.append_nil _).symm
  | cons entry updates ih =>
    obtain ⟨key, update⟩ := entry
    obtain ⟨absent, distinct⟩ := List.nodup_cons.mp distinct
    rw [mergeEntries_cons, ih distinct, keys_putEntry, List.map_cons]
    by_cases old : key ∈ result.map Prod.fst
    · rw [if_pos old, List.filter_cons_of_neg (by simpa using old)]
    · rw [if_neg old, List.filter_cons_of_pos (by simpa using old), List.append_assoc,
        List.singleton_append]
      congr 2
      -- the key that has been put in does not come again
      refine List.filter_congr fun other among => ?_
      have differ : other ≠ key := fun same => absent (same ▸ among)
      simp [differ]

section

variable {base update : Value} (mappings : base.isMapping ∧ update.isMapping)
  (keyed : update.Keyed)

include mappings

theorem isMapping_merge : (merge base update).isMapping = true := by
  obtain ⟨entries, mark, rfl⟩ := exists_dict mappings.1
  obtain ⟨updates, other, rfl⟩ := exists_dict mappings.2
  rw [merge_dict]
  rfl

include keyed

theorem keys_merge :
    (merge base update).keys = base.keys ++ update.keys.filter (fun key => key ∉ base.keys) := by
  obtain ⟨entries, mark, rfl⟩ := exists_dict mappings.1
  obtain ⟨updates, other, rfl⟩ := exists_dict mappings.2
  rw [merge_dict]
  exact keys_mergeEntries keyed.nodup entries

theorem at?_merge (key : String) :
    (merge base update).at? key = mergeParts (base.at? key) (update.at? key) := by
  obtain ⟨entries, mark, rfl⟩ := exists_dict mappings.1
  obtain ⟨updates, other, rfl⟩ := exists_dict mappings.2
  rw [merge_dict]
  exact lookup_mergeEntries keyed.nodup entries key

end

end LazyConfig.Value
