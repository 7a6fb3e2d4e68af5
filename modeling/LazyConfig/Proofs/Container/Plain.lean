import LazyConfig.Proofs.Merge.Copy

/-!
# Configuration values

The values that a configuration consists of when all of it has been evaluated: scalars, and lists
and mappings of such values. Copies and merges of configuration values are configuration values.
-/

namespace LazyConfig.Value

mutual

/-- A configuration value: scalars, and lists and mappings of such values. -/
def isPlain : Value → Bool
  | list items _ => itemsPlain items
  | dict entries _ => entriesPlain entries
  | null | absent | bool _ | number _ _ | text _ _ | date _ _ | dateTime _ _ => true
  | object _ _ _ | function _ _ _ _ | listView _ | mappingView _ | document _ => false

def itemsPlain : List Value → Bool
  | [] => true
  | v :: items => isPlain v && itemsPlain items

def entriesPlain : List (String × Value) → Bool
  | [] => true
  | (_, v) :: entries => isPlain v && entriesPlain entries

end

mutual

/-- How deep lists and mappings stand in one another in the value. -/
def height : Value → Nat
  | list items _ => itemsHeight items + 1
  | dict entries _ => entriesHeight entries + 1
  | _ => 1

def itemsHeight : List Value → Nat
  | [] => 0
  | v :: items => max (height v) (itemsHeight items)

def entriesHeight : List (String × Value) → Nat
  | [] => 0
  | (_, v) :: entries => max (height v) (entriesHeight entries)

end

/-! ### Parts -/

theorem isPlain_of_mem {items : List Value} (plain : itemsPlain items = true) {v : Value}
    (among : v ∈ items) : v.isPlain = true := by
  induction items with
  | nil => cases among
  | cons first rest ih =>
    rw [itemsPlain, Bool.and_eq_true] at plain
    rcases List.mem_cons.mp among with rfl | among
    · exact plain.1
    · exact ih plain.2 among

theorem isPlain_of_lookup {entries : List (String × Value)} (plain : entriesPlain entries = true)
    {key : String} {v : Value} (found : entries.lookup key = some v) : v.isPlain = true := by
  induction entries with
  | nil => cases found
  | cons entry entries ih =>
    rw [entriesPlain, Bool.and_eq_true] at plain
    rw [List.lookup_cons] at found
    cases isFirst : key == entry.1 with
    | true =>
      rw [isFirst] at found
      obtain rfl := Option.some.inj found
      exact plain.1
    | false =>
      rw [isFirst] at found
      exact ih plain.2 found

theorem entriesPlain_filter (keep : String × Value → Bool) {entries : List (String × Value)}
    (plain : entriesPlain entries = true) : entriesPlain (entries.filter keep) = true := by
  induction entries with
  | nil => rfl
  | cons entry entries ih =>
    rw [entriesPlain, Bool.and_eq_true] at plain
    rw [List.filter_cons]
    split
    · rw [entriesPlain, plain.1, ih plain.2]
      rfl
    · exact ih plain.2

/-! ### Copies and merges -/

mutual

theorem isPlain_bare : ∀ v : Value, v.bare.isPlain = v.isPlain
  | list items mark => by rw [bare, isPlain, isPlain, itemsPlain_bareItems]
  | dict entries mark => by rw [bare, isPlain, isPlain, entriesPlain_bareEntries]
  | date _ _ | dateTime _ _ | object _ _ _ => by rw [bare, isPlain, isPlain]
  | null | absent | bool _ | number _ _ | text _ _ | function _ _ _ _ | listView _
  | mappingView _ | document _ => by simp only [bare]

theorem itemsPlain_bareItems : ∀ items : List Value, itemsPlain (bareItems items) = itemsPlain items
  | [] => by rw [bareItems]
  | v :: items => by
    rw [bareItems, itemsPlain, itemsPlain, isPlain_bare v, itemsPlain_bareItems items]

theorem entriesPlain_bareEntries :
    ∀ entries : List (String × Value), entriesPlain (bareEntries entries) = entriesPlain entries
  | [] => by rw [bareEntries]
  | (key, v) :: entries => by
    rw [bareEntries, entriesPlain, entriesPlain, isPlain_bare v, entriesPlain_bareEntries entries]

end

theorem entriesPlain_putEntry {key : String} {v : Value} (plain : v.isPlain = true) :
    ∀ {entries : List (String × Value)}, entriesPlain entries = true →
      entriesPlain (putEntry key v entries) = true
  | [], _ => by rw [putEntry, entriesPlain, plain, entriesPlain]; rfl
  | (other, w) :: entries, all => by
    rw [entriesPlain, Bool.and_eq_true] at all
    rw [putEntry]
    split
    · rw [entriesPlain, plain, all.2]
      rfl
    · rw [entriesPlain, all.1, entriesPlain_putEntry plain all.2]
      rfl

theorem isPlain_mergeValue_other {base : Option Value} {update : Value}
    (other : ¬ (base.any isMapping ∧ update.isMapping)) (plain : update.isPlain = true) :
    (mergeValue (m := Id) pure base update).isPlain = true := by
  rw [mergeValue_of_not_mapping (m := Id) pure other]
  exact plain

mutual

theorem isPlain_mergeValue : ∀ (update : Value) {base : Option Value},
    base.all isPlain = true → update.isPlain = true →
      (mergeValue (m := Id) pure base update).isPlain = true
  | .dict updates mark, base, ofBase, ofUpdate => by
    by_cases mapping : base.any isMapping
    · obtain ⟨_, rfl, isMapping⟩ := (Option.any_eq_true _ _).mp mapping
      obtain ⟨entries, own, rfl⟩ := exists_dict isMapping
      rw [Option.all_some, isPlain] at ofBase
      rw [isPlain] at ofUpdate
      change (merge (dict entries own) (dict updates mark)).isPlain = true
      rw [merge_dict, isPlain]
      exact entriesPlain_mergeEntries updates ofBase ofUpdate
    · exact isPlain_mergeValue_other (fun both => mapping both.1) ofUpdate
  | .null, _, _, plain | .absent, _, _, plain | .bool _, _, _, plain | .number _ _, _, _, plain
  | .text _ _, _, _, plain | .date _ _, _, _, plain | .dateTime _ _, _, _, plain
  | .list _ _, _, _, plain | .object _ _ _, _, _, plain | .function _ _ _ _, _, _, plain
  | .listView _, _, _, plain | .mappingView _, _, _, plain | .document _, _, _, plain =>
    isPlain_mergeValue_other (by simp [isMapping]) plain

theorem entriesPlain_mergeEntries : ∀ (updates : List (String × Value))
    {result : List (String × Value)}, entriesPlain result = true → entriesPlain updates = true →
      entriesPlain (mergeEntries (m := Id) pure result updates) = true
  | [], result, ofResult, _ => ofResult
  | (key, update) :: updates, result, ofResult, ofUpdates => by
    rw [entriesPlain, Bool.and_eq_true] at ofUpdates
    -- an update may replace what earlier entries of it have put in
    have ofOld : (result.lookup key).all isPlain = true := by
      cases found : result.lookup key with
      | none => rfl
      | some old => exact isPlain_of_lookup ofResult found
    rw [mergeEntries_cons]
    exact entriesPlain_mergeEntries updates
      (entriesPlain_putEntry (isPlain_mergeValue update ofOld ofUpdates.1) ofResult) ofUpdates.2

end

end LazyConfig.Value
