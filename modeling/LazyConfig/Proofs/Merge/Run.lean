import LazyConfig.Proofs.Merge.Copy
import LazyConfig.Proofs.Merge.Laws
import LazyConfig.Proofs.Resolution.Document

/-!
# Merging in an evaluation

The merge of an evaluation copies what goes into its result. The laws of merging hold for the
results of such runs up to the marks of copies, and no run touches its operands: all containers,
dates and objects of the result are new.
-/

namespace LazyConfig.Value

/-! ### Laws without marks -/

/-- The values differ in nothing but the marks of copies. -/
def Matches (v w : Value) : Prop := v.bare = w.bare

theorem Keyed.bare {v : Value} (keyed : v.Keyed) : v.bare.Keyed := by
  induction v using induction_at? with
  | step v ih =>
    refine keyed_of_at? (by rw [keys_bare]; exact keyed.nodup) fun key part found => ?_
    rw [at?_bare] at found
    obtain ⟨own, has, rfl⟩ := Option.map_eq_some_iff.mp found
    exact ih key own has (keyed.at? has)

theorem under?_bare (v : Value) (path : List String) :
    v.bare.under? path = (v.under? path).map Value.bare := by
  induction path generalizing v with
  | nil => rfl
  | cons key path ih =>
    rw [under?, under?, at?_bare]
    cases v.at? key with
    | none => rfl
    | some part => exact ih part

theorem Compatible.bare {a b c : Value} (compatible : Compatible a b c) :
    Compatible a.bare b.bare c.bare := by
  intro path x y z ofA ofB ofC isX isZ
  rw [under?_bare] at ofA ofB ofC
  obtain ⟨x, hasX, rfl⟩ := Option.map_eq_some_iff.mp ofA
  obtain ⟨y, hasY, rfl⟩ := Option.map_eq_some_iff.mp ofB
  obtain ⟨z, hasZ, rfl⟩ := Option.map_eq_some_iff.mp ofC
  rw [isMapping_bare] at isX isZ ⊢
  exact compatible path x y z hasX hasY hasZ isX isZ

end LazyConfig.Value

namespace LazyConfig.Evaluation

open Eval
open Resolution (emptyWorld)
open Value (Matches Compatible Keyed MadeWithin bare merge mergeParts)

/-! ### Results of runs -/

/-- A run that merges an update into a base has this result. -/
def Merged (base update result : Value) : Prop :=
  ∃ environment s later,
    (Value.mergeValue copy (some base) update).run environment s = (.ok result, later)

variable {a b c : Value}

/-- Every run that merges has a result, which is the merge with new marks, and numbers values
only. -/
theorem run_mergeValue (environment : Environment) (s : Store) (base update : Value) :
    ∃ r serial,
      (Value.mergeValue copy (some base) update).run environment s = (.ok r, { s with serial }) ∧
        s.serial ≤ serial ∧ r.bare = merge base.bare update.bare ∧
        MadeWithin s.serial serial r.ownMarks :=
  numbers_mergeValue update (some base) (Nat.le_refl s.serial)

theorem exists_merged (a b : Value) : ∃ r, Merged a b r := by
  obtain ⟨r, serial, ran, -⟩ := run_mergeValue emptyWorld {} a b
  exact ⟨r, emptyWorld, {}, _, ran⟩

theorem Merged.bare {r : Value} (merged : Merged a b r) : r.bare = merge a.bare b.bare := by
  obtain ⟨environment, s, later, ran⟩ := merged
  obtain ⟨v, serial, same, -, isMerge, -⟩ := run_mergeValue environment s a b
  rw [ran] at same
  obtain rfl : r = v := Except.ok.inj (Prod.mk.inj same).1
  exact isMerge

/-- What the result of a merge has under a key that its base and its update have, or have not. -/
def Joined (base update result : Option Value) : Prop :=
  match base, update with
  | none, none => result = none
  | some x, none => ∃ v, result = some v ∧ Matches v x
  | none, some y => ∃ v, result = some v ∧ Matches v y
  | some x, some y => ∃ v, result = some v ∧
    ((x.isMapping ∧ y.isMapping) → ∃ xy, Merged x y xy ∧ Matches v xy) ∧
    (¬ (x.isMapping ∧ y.isMapping) → Matches v y)

theorem joined_of_bare {base update result : Option Value}
    (same : result.map Value.bare = mergeParts (base.map Value.bare) (update.map Value.bare)) :
    Joined base update result := by
  cases update with
  | none =>
    cases base with
    | none => exact Option.map_eq_none_iff.mp same
    | some x => exact Option.map_eq_some_iff.mp same
  | some y =>
    cases base with
    | none => exact Option.map_eq_some_iff.mp same
    | some x =>
      obtain ⟨v, isResult, isMerge⟩ := Option.map_eq_some_iff.mp same
      refine ⟨v, isResult, fun mappings => ?_, fun other => ?_⟩
      · obtain ⟨xy, merged⟩ := exists_merged x y
        exact ⟨xy, merged, isMerge.trans merged.bare.symm⟩
      · rw [Matches, isMerge, Value.merge_of_not_mapping (by simpa using other)]

theorem keys_merged {r : Value} (mappings : a.isMapping ∧ b.isMapping) (keyed : b.Keyed)
    (merged : Merged a b r) :
    r.keys = a.keys ++ b.keys.filter (fun key => key ∉ a.keys) ∧
      ∀ key, Joined (a.at? key) (b.at? key) (r.at? key) := by
  have bareMappings : a.bare.isMapping ∧ b.bare.isMapping := by simpa using mappings
  constructor
  · rw [← Value.keys_bare r, merged.bare, Value.keys_merge bareMappings keyed.bare,
      Value.keys_bare, Value.keys_bare]
  · intro key
    apply joined_of_bare
    rw [← Value.at?_bare, ← Value.at?_bare, ← Value.at?_bare, merged.bare,
      Value.at?_merge bareMappings keyed.bare]

/-- Merging is a right-biased operation on mappings that leaves its operands alone: it gives a new
mapping with the keys of the base before the new ones of the update, joins what both have under a
key, has the empty mapping as its neutral element, is idempotent, absorbs a repeated update and is
associative, the order of the keys included, for operands that do not cut each other off. -/
theorem merge_lawful (mappings : a.isMapping ∧ b.isMapping ∧ c.isMapping) (first : a.Keyed)
    (second : b.Keyed) (third : c.Keyed) :
    (∀ environment s, ∃ r serial,
      (Value.mergeValue copy (some a) b).run environment s = (.ok r, { s with serial }) ∧
        s.serial ≤ serial ∧ MadeWithin s.serial serial r.ownMarks) ∧
    (∀ r, Merged a b r → r.keys = a.keys ++ b.keys.filter (fun key => key ∉ a.keys) ∧
      ∀ key, Joined (a.at? key) (b.at? key) (r.at? key)) ∧
    (∀ mark r, Merged a (.dict [] mark) r ∨ Merged (.dict [] mark) a r → Matches r a) ∧
    (∀ r, Merged a a r → Matches r a) ∧
    (∀ ab r, Merged a b ab → Merged ab b r → Matches r ab) ∧
    (Compatible a b c → ∀ ab bc left right, Merged a b ab → Merged ab c left → Merged b c bc →
      Merged a bc right → Matches left right) := by
  -- each law is the one of values without marks, which every run computes
  refine ⟨?_, ?_, ?_, ?_, ?_, ?_⟩
  · intro environment s
    obtain ⟨r, serial, ran, le, -, made⟩ := run_mergeValue environment s a b
    exact ⟨r, serial, ran, le, made⟩
  · intro r merged
    exact keys_merged ⟨mappings.1, mappings.2.1⟩ second merged
  · have isMapping : a.bare.isMapping := by rw [Value.isMapping_bare]; exact mappings.1
    -- where marks are left out, the empty mapping has the mark of the other operand
    have own : a.bare.mark? = some default := by
      obtain ⟨entries, mark, rfl⟩ := Value.exists_dict mappings.1
      rw [bare_dict]
      rfl
    rintro mark r (right | left)
    · rw [Matches, right.bare, bare_dict, Value.bareEntries, Value.merge_empty isMapping]
    · rw [Matches, left.bare, bare_dict, Value.bareEntries,
        Value.empty_merge isMapping first.bare own]
  · intro r merged
    rw [Matches, merged.bare, Value.merge_self first.bare]
  · intro ab r merged again
    rw [Matches, again.bare, merged.bare, Value.merge_again first.bare second.bare]
  · intro compatible ab bc left right ofAB ofLeft ofBC ofRight
    rw [Matches, ofLeft.bare, ofAB.bare, ofRight.bare, ofBC.bare,
      Value.merge_assoc first.bare second.bare third.bare compatible.bare]

theorem merge_lawful_nested :
    let a : Value := .dict [("x", .null)] default
    let b : Value := .dict [("m", .dict [("p", .null)] default)] default
    let c : Value := .dict [("m", .dict [("q", .null), ("p", .bool true)] default)] default
    ∀ ab bc left right, Merged a b ab → Merged ab c left → Merged b c bc → Merged a bc right →
      Matches left right := by
  intro a b c
  have firstKeyed : a.Keyed := .flat (by decide) (by decide)
  have secondKeyed : b.Keyed := by
    refine .dict (by decide) fun entry among => ?_
    obtain rfl := List.mem_singleton.mp among
    exact .flat (by decide) (by decide)
  have thirdKeyed : c.Keyed := by
    refine .dict (by decide) fun entry among => ?_
    obtain rfl := List.mem_singleton.mp among
    exact .flat (by decide) (by decide)
  have compatible : Compatible a b c := by
    intro path x y z ofA ofB ofC isX isZ
    cases path with
    | nil =>
      cases ofB
      rfl
    | cons key path =>
      -- the first mapping has no mapping under a key
      cases found : a.at? key with
      | none => simp [Value.under?, found] at ofA
      | some part =>
        obtain ⟨entry, among, rfl⟩ := mem_of_lookup found
        obtain rfl := List.mem_singleton.mp among
        rw [Value.under?, found] at ofA
        cases path <;> cases ofA
        cases isX
  exact (merge_lawful ⟨rfl, rfl, rfl⟩ firstKeyed secondKeyed thirdKeyed).2.2.2.2.2 compatible

end LazyConfig.Evaluation
