import LazyConfig.Value.Basic

/-!
# Merging mappings

The merge of a mapping with an update: where both have a mapping under a key, these are merged;
otherwise the update wins. Keys keep the order of the base, and new keys follow in the order of the
update. What goes into the result is copied; `mergeWith` leaves open how.
-/

namespace LazyConfig.Value

/-- Sets the value of a key: in its place if it is there, else at the end. -/
def putEntry (key : String) (value : Value) : List (String × Value) → List (String × Value)
  | [] => [(key, value)]
  | (k, v) :: entries =>
    if k = key then (key, value) :: entries else (k, v) :: putEntry key value entries

/-- Only the key that is set has a new value. -/
theorem lookup_putEntry (key other : String) (value : Value) (entries : List (String × Value)) :
    (putEntry key value entries).lookup other =
      if other = key then some value else entries.lookup other := by
  induction entries with
  | nil => by_cases same : other = key <;> simp [putEntry, same]
  | cons entry entries ih =>
    obtain ⟨k, v⟩ := entry
    by_cases found : k = key
    · subst found
      by_cases same : other = k <;> simp [putEntry, List.lookup_cons, same, beq_false_of_ne]
    · by_cases same : other = k
      · subst same
        simp [putEntry, found]
      · simp [putEntry, found, List.lookup_cons, ih, beq_false_of_ne same]

/-- The keys keep their order, and a new one comes last. -/
theorem keys_putEntry (key : String) (value : Value) (entries : List (String × Value)) :
    (putEntry key value entries).map Prod.fst =
      if key ∈ entries.map Prod.fst then entries.map Prod.fst
      else entries.map Prod.fst ++ [key] := by
  induction entries with
  | nil => simp [putEntry]
  | cons entry entries ih =>
    obtain ⟨k, v⟩ := entry
    by_cases found : k = key
    · simp [putEntry, found]
    · have differ : ¬ key = k := fun h => found h.symm
      by_cases later : key ∈ entries.map Prod.fst <;>
        simp_all [putEntry]

variable {m : Type → Type} [Monad m]

mutual

/-- The merge of what stands under a key, if anything, with an update. -/
def mergeValue (copy : Value → m Value) (base : Option Value) : Value → m Value
  | dict updates mark =>
    match base with
    | some (dict entries baseMark) => do
      match ← copy (dict entries baseMark) with
      | dict copied copiedMark => return dict (← mergeEntries copy copied updates) copiedMark
      | other => return other
    | _ => copy (dict updates mark)
  | update => copy update

def mergeEntries (copy : Value → m Value) (result : List (String × Value)) :
    List (String × Value) → m (List (String × Value))
  | [] => pure result
  | (key, update) :: updates => do
    let merged ← mergeValue copy (result.lookup key) update
    mergeEntries copy (putEntry key merged result) updates

end

/-- The merge of two mappings, which shares the values of both. -/
def merge (base update : Value) : Value := mergeValue (m := Id) pure (some base) update

end LazyConfig.Value
