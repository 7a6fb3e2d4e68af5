import LazyConfig.Proofs.Merge.Mapping
import Mathlib.Data.List.Nodup

/-!
# Laws of merging

Merging is a right-biased operation on mappings that have each key once: an empty mapping adds
nothing, an update that has been merged changes nothing more, and merges can be grouped in both ways
unless the middle one cuts off a mapping that both others have.
-/

namespace LazyConfig.Value

variable {a b c : Value}

/-! ### Mappings by their keys -/

theorem mapping_ext {first second : Value} (firstMapping : first.isMapping = true)
    (secondMapping : second.isMapping = true) (mark : first.mark? = second.mark?)
    (distinct : first.keys.Nodup) (keys : first.keys = second.keys)
    (parts : ∀ key, first.at? key = second.at? key) : first = second := by
  obtain ⟨entries, mark, rfl⟩ := exists_dict firstMapping
  obtain ⟨others, other, rfl⟩ := exists_dict secondMapping
  obtain rfl : entries = others := entries_ext distinct keys parts
  exact congrArg (dict entries) (Option.some.inj mark)

theorem keyed_of_at? {v : Value} (distinct : v.keys.Nodup)
    (parts : ∀ key part, v.at? key = some part → part.Keyed) : v.Keyed := by
  cases v with
  | dict entries mark =>
    refine .dict distinct fun ⟨key, part⟩ among => parts key part ?_
    -- the first entry of a key is its only one
    obtain ⟨before, after, rfl⟩ := List.append_of_mem among
    have split : (before.map Prod.fst ++ key :: after.map Prod.fst).Nodup := by
      rwa [← List.map_cons (f := Prod.fst) (a := (key, part)), ← List.map_append]
    have differ := (List.nodup_append.mp split).2.2
    refine List.lookup_eq_some_iff.mpr ⟨before, after, rfl, fun entry earlier => ?_⟩
    exact bne_iff_ne.mpr fun same =>
      differ entry.1 (List.mem_map_of_mem earlier) key List.mem_cons_self same.symm
  | _ => exact .other rfl

theorem mark?_merge (mappings : a.isMapping ∧ b.isMapping) :
    (merge a b).mark? = a.mark? := by
  obtain ⟨entries, mark, rfl⟩ := exists_dict mappings.1
  obtain ⟨updates, other, rfl⟩ := exists_dict mappings.2
  rw [merge_dict]
  rfl

theorem nodup_keys_merge (mappings : a.isMapping ∧ b.isMapping) (base : a.Keyed)
    (update : b.Keyed) : (merge a b).keys.Nodup := by
  rw [keys_merge mappings update]
  refine base.nodup.append (update.nodup.filter _) fun key old new => ?_
  have fresh := (List.mem_filter.mp new).2
  exact of_decide_eq_true fresh old

theorem Keyed.merge (base : a.Keyed) (update : b.Keyed) : (merge a b).Keyed := by
  induction b using induction_at? generalizing a with
  | step b ih =>
    by_cases mappings : a.isMapping ∧ b.isMapping
    · refine keyed_of_at? (nodup_keys_merge mappings base update) fun key part found => ?_
      rw [at?_merge mappings update] at found
      cases old : a.at? key with
      | none =>
        cases new : b.at? key with
        | none => simp [old, new, mergeParts] at found
        | some y =>
          obtain rfl : y = part := by simpa [old, new, mergeParts] using found
          exact update.at? new
      | some x =>
        cases new : b.at? key with
        | none =>
          obtain rfl : x = part := by simpa [old, new, mergeParts] using found
          exact base.at? old
        | some y =>
          obtain rfl : Value.merge x y = part := by simpa [old, new, mergeParts] using found
          exact ih key y new (base.at? old) (update.at? new)
    · rw [merge_of_not_mapping mappings]
      exact update

/-! ### Empty mappings -/

theorem merge_empty (mapping : a.isMapping = true) (mark : Mark) : merge a (dict [] mark) = a := by
  obtain ⟨entries, own, rfl⟩ := exists_dict mapping
  rw [merge_dict, mergeEntries]
  rfl

theorem empty_merge (mapping : a.isMapping = true) (keyed : a.Keyed) {mark : Mark}
    (own : a.mark? = some mark) : merge (dict [] mark) a = a := by
  have mappings : (dict [] mark).isMapping ∧ a.isMapping := ⟨rfl, mapping⟩
  have empty : (dict [] mark).Keyed := .dict List.nodup_nil (by simp)
  refine mapping_ext (isMapping_merge mappings) mapping ?_ (nodup_keys_merge mappings empty keyed)
    ?_ fun key => ?_
  · rw [mark?_merge mappings, own]
    rfl
  · rw [keys_merge mappings keyed]
    exact List.filter_eq_self.mpr fun key _ => rfl
  · rw [at?_merge mappings keyed]
    cases found : a.at? key <;> rfl

/-! ### Repeated updates -/

theorem keys_absorb (keys : List String) : keys.filter (fun key => key ∉ keys) = [] :=
  List.filter_eq_nil_iff.mpr fun key among => by simpa using among

theorem merge_self (keyed : a.Keyed) : merge a a = a := by
  induction a using induction_at? with
  | step a ih =>
    by_cases mapping : a.isMapping = true
    · have mappings : a.isMapping ∧ a.isMapping := ⟨mapping, mapping⟩
      refine mapping_ext (isMapping_merge mappings) mapping (mark?_merge mappings)
        (nodup_keys_merge mappings keyed keyed) ?_ fun key => ?_
      · rw [keys_merge mappings keyed, keys_absorb, List.append_nil]
      · rw [at?_merge mappings keyed]
        cases found : a.at? key with
        | none => rfl
        | some part => exact congrArg some (ih key part found (keyed.at? found))
    · exact merge_of_not_mapping fun mappings => mapping mappings.1

theorem merge_again (base : a.Keyed) (update : b.Keyed) : merge (merge a b) b = merge a b := by
  induction b using induction_at? generalizing a with
  | step b ih =>
    by_cases mappings : a.isMapping ∧ b.isMapping
    · have isMapping := isMapping_merge mappings
      have again : (merge a b).isMapping ∧ b.isMapping := ⟨isMapping, mappings.2⟩
      refine mapping_ext (isMapping_merge again) isMapping (mark?_merge again)
        (nodup_keys_merge again (base.merge update) update) ?_ fun key => ?_
      · rw [keys_merge again update]
        -- the first merge has all keys of the update, and the second one finds no new ones
        have none : b.keys.filter (fun key => key ∉ (merge a b).keys) = [] := by
          rw [keys_merge mappings update]
          refine List.filter_eq_nil_iff.mpr fun key among => ?_
          by_cases old : key ∈ a.keys <;> simp [old, among]
        rw [none, List.append_nil]
      · rw [at?_merge again update, at?_merge mappings update]
        cases new : b.at? key with
        | none => rfl
        | some y =>
          cases old : a.at? key with
          -- under a key of its own, the update has been taken over and meets itself
          | none => exact congrArg some (merge_self (update.at? new))
          | some x => exact congrArg some (ih key y new (base.at? old) (update.at? new))
    · rw [merge_of_not_mapping mappings]
      exact merge_self update

/-! ### Grouping -/

/-- What stands at a path of keys. -/
def under? (v : Value) : List String → Option Value
  | [] => some v
  | key :: path => (v.at? key).bind (under? · path)

/-- At no path of keys do the outer two have mappings and the middle one something else. -/
def Compatible (a b c : Value) : Prop :=
  ∀ path x y z, a.under? path = some x → b.under? path = some y → c.under? path = some z →
    x.isMapping = true → z.isMapping = true → y.isMapping = true

theorem Compatible.at? (compatible : Compatible a b c) {key : String} {x y z : Value}
    (first : a.at? key = some x) (second : b.at? key = some y) (third : c.at? key = some z) :
    Compatible x y z := by
  intro path p q r ofFirst ofSecond ofThird
  exact compatible (key :: path) p q r (by simp [under?, first, ofFirst])
    (by simp [under?, second, ofSecond]) (by simp [under?, third, ofThird])

theorem keys_assoc (first second third : List String) :
    (first ++ second.filter (fun key => key ∉ first)) ++
        third.filter (fun key => key ∉ first ++ second.filter (fun key => key ∉ first)) =
      first ++ (second ++ third.filter (fun key => key ∉ second)).filter
        (fun key => key ∉ first) := by
  rw [List.append_assoc, List.filter_append, List.filter_filter]
  congr 2
  refine List.filter_congr fun key _ => ?_
  by_cases inFirst : key ∈ first <;> by_cases inSecond : key ∈ second <;> simp [inFirst, inSecond]

/-- Three mappings can be grouped in both ways if this holds of what they have under a key. -/
theorem merge_assoc_step (first : a.Keyed) (second : b.Keyed) (third : c.Keyed)
    (earlier : a.isMapping ∧ b.isMapping) (later : b.isMapping ∧ c.isMapping)
    (parts : ∀ key x y z, a.at? key = some x → b.at? key = some y → c.at? key = some z →
      merge (merge x y) z = merge x (merge y z)) :
    merge (merge a b) c = merge a (merge b c) := by
  have left : (merge a b).isMapping ∧ c.isMapping := ⟨isMapping_merge earlier, later.2⟩
  have right : a.isMapping ∧ (merge b c).isMapping := ⟨earlier.1, isMapping_merge later⟩
  -- both groupings have the mark of the base, the keys in one order, and the same under each key
  refine mapping_ext (isMapping_merge left) (isMapping_merge right) ?_
    (nodup_keys_merge left (first.merge second) third) ?_ fun key => ?_
  · rw [mark?_merge left, mark?_merge earlier, mark?_merge right]
  · rw [keys_merge left third, keys_merge earlier second, keys_merge right (second.merge third),
      keys_merge later third]
    exact keys_assoc a.keys b.keys c.keys
  · rw [at?_merge left third, at?_merge earlier second, at?_merge right (second.merge third),
      at?_merge later third]
    cases ofC : c.at? key with
    | none => rfl
    | some z =>
      cases ofB : b.at? key with
      | none => rfl
      | some y =>
        cases ofA : a.at? key with
        | none => rfl
        | some x => exact congrArg some (parts key x y z ofA ofB ofC)

theorem merge_assoc (first : a.Keyed) (second : b.Keyed) (third : c.Keyed)
    (compatible : Compatible a b c) : merge (merge a b) c = merge a (merge b c) := by
  induction c using induction_at? generalizing a b with
  | step c ih =>
    by_cases later : b.isMapping ∧ c.isMapping
    · by_cases earlier : a.isMapping ∧ b.isMapping
      · exact merge_assoc_step first second third earlier later fun key x y z ofA ofB ofC =>
          ih key z ofC (first.at? ofA) (second.at? ofB) (third.at? ofC)
            (compatible.at? ofA ofB ofC)
      -- the first value is no mapping, and both groupings leave it out
      · have isMapping := isMapping_merge later
        rw [merge_of_not_mapping earlier,
          merge_of_not_mapping fun both => earlier ⟨both.1, later.1⟩]
    · rw [merge_of_not_mapping later]
      -- a mapping on the right needs one in the middle, or else there is none on the left
      by_cases last : c.isMapping
      · have notSecond : ¬ b.isMapping := fun isSecond => later ⟨isSecond, last⟩
        have notFirst : ¬ a.isMapping := fun isFirst =>
          notSecond (compatible [] a b c rfl rfl rfl isFirst last)
        rw [merge_of_not_mapping fun both => notSecond both.2, merge_of_not_mapping later,
          merge_of_not_mapping fun both => notFirst both.1]
      -- the last value is no mapping, and replaces whatever comes before it
      · rw [merge_of_not_mapping fun both => last both.2,
          merge_of_not_mapping fun both => last both.2]

end LazyConfig.Value
