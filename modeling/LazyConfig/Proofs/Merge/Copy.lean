import LazyConfig.Proofs.Merge.Mapping

/-!
# Copies

A copy differs from its original in nothing but the marks of its containers, dates and objects,
which are new. So does a merge that copies differ from one that shares the values of its operands.
-/

namespace LazyConfig.Value

/-! ### Values without the marks of copies -/

mutual

/-- The value without the marks that a copy has anew. -/
def bare : Value → Value
  | list items _ => list (bareItems items) default
  | dict entries _ => dict (bareEntries entries) default
  | date d _ => date d default
  | dateTime t _ => dateTime t default
  | object name attributes _ => object name (bareEntries attributes) default
  | v => v

def bareItems : List Value → List Value
  | [] => []
  | v :: items => bare v :: bareItems items

def bareEntries : List (String × Value) → List (String × Value)
  | [] => []
  | (key, v) :: entries => (key, bare v) :: bareEntries entries

end

mutual

/-- The marks in a value that a copy has anew. -/
def ownMarks : Value → List Mark
  | list items mark => mark :: itemsMarks items
  | dict entries mark => mark :: entriesMarks entries
  | date _ mark => [mark]
  | dateTime _ mark => [mark]
  | object _ attributes mark => mark :: entriesMarks attributes
  | _ => []

def itemsMarks : List Value → List Mark
  | [] => []
  | v :: items => ownMarks v ++ itemsMarks items

def entriesMarks : List (String × Value) → List Mark
  | [] => []
  | (_, v) :: entries => ownMarks v ++ entriesMarks entries

end

@[simp] theorem isMapping_bare (v : Value) : v.bare.isMapping = v.isMapping := by
  cases v <;> simp [bare, isMapping]

theorem entries_bare (v : Value) : v.bare.entries = bareEntries v.entries := by
  cases v <;> simp [bare, entries, bareEntries]

theorem keys_bareEntries (entries : List (String × Value)) :
    (bareEntries entries).map Prod.fst = entries.map Prod.fst := by
  induction entries with
  | nil => rw [bareEntries]
  | cons entry entries ih => rw [bareEntries, List.map_cons, List.map_cons, ih]

theorem lookup_bareEntries (entries : List (String × Value)) (key : String) :
    (bareEntries entries).lookup key = (entries.lookup key).map bare := by
  induction entries with
  | nil => rw [bareEntries]; rfl
  | cons entry entries ih =>
    rw [bareEntries, List.lookup_cons, List.lookup_cons, ih]
    cases key == entry.1 <;> rfl

theorem keys_bare (v : Value) : v.bare.keys = v.keys := by
  rw [keys, entries_bare, keys_bareEntries, keys]

theorem at?_bare (v : Value) (key : String) : v.bare.at? key = (v.at? key).map bare := by
  rw [at?, entries_bare, lookup_bareEntries, at?]

theorem bareEntries_putEntry (key : String) (v : Value) (entries : List (String × Value)) :
    bareEntries (putEntry key v entries) = putEntry key v.bare (bareEntries entries) := by
  induction entries with
  | nil => simp [putEntry, bareEntries]
  | cons entry entries ih =>
    by_cases same : entry.1 = key
    · simp [putEntry, bareEntries, same]
    · simp [putEntry, bareEntries, same, ih]

theorem entriesMarks_putEntry_subset (key : String) (v : Value) (entries : List (String × Value)) :
    entriesMarks (putEntry key v entries) ⊆ v.ownMarks ++ entriesMarks entries := by
  induction entries with
  | nil => simp [putEntry, entriesMarks]
  | cons entry entries ih =>
    rw [putEntry]
    split
    · intro mark among
      simp only [entriesMarks, List.mem_append] at among ⊢
      exact among.imp_right .inr
    · intro mark among
      simp only [entriesMarks, List.mem_append] at among ⊢
      rcases among with first | rest
      · exact .inr (.inl first)
      · exact (List.mem_append.mp (ih rest)).imp_right .inr

/-- The marks were made while the serial number went from `low` to `high`. -/
def MadeWithin (low high : Nat) (marks : List Mark) : Prop :=
  ∀ mark ∈ marks, ∃ serial, mark = .made serial ∧ low ≤ serial ∧ serial < high

namespace MadeWithin

variable {low high higher : Nat} {marks others : List Mark}

theorem nil : MadeWithin low high [] := fun _ among => absurd among List.not_mem_nil

theorem append (first : MadeWithin low high marks) (second : MadeWithin low high others) :
    MadeWithin low high (marks ++ others) := fun mark among =>
  (List.mem_append.mp among).elim (first mark) (second mark)

theorem cons {mark : Mark} (first : MadeWithin low high [mark])
    (rest : MadeWithin low high marks) : MadeWithin low high (mark :: marks) := first.append rest

theorem subset (made : MadeWithin low high marks) (subset : others ⊆ marks) :
    MadeWithin low high others := fun mark among => made mark (subset among)

theorem from_lower {lower : Nat} (made : MadeWithin low high marks) (le : lower ≤ low) :
    MadeWithin lower high marks := fun mark among =>
  let ⟨serial, isMade, least, below⟩ := made mark among
  ⟨serial, isMade, Nat.le_trans le least, below⟩

theorem mono (made : MadeWithin low high marks) (le : high ≤ higher) :
    MadeWithin low higher marks := fun mark among =>
  let ⟨serial, isMade, least, below⟩ := made mark among
  ⟨serial, isMade, least, Nat.lt_of_lt_of_le below le⟩

end MadeWithin

end LazyConfig.Value

namespace LazyConfig.Evaluation

open Eval
open Value (bare bareItems bareEntries ownMarks itemsMarks entriesMarks MadeWithin)

/-! ### Runs that only number -/

/-- From the store, the run gives a result of this kind, and only takes serial numbers. -/
def Numbers {α : Type} (environment : Environment) (s : Store) (c : Eval α)
    (holds : α → Nat → Prop) : Prop :=
  ∃ a serial, c.run environment s = (.ok a, { s with serial }) ∧ s.serial ≤ serial ∧ holds a serial

namespace Numbers

variable {α β : Type} {environment : Environment} {s : Store} {c : Eval α} {f : α → Eval β}
  {holds : α → Nat → Prop} {goal : β → Nat → Prop}

theorem pure {a : α} (isSo : holds a s.serial) :
    Numbers environment s (Pure.pure a) holds := ⟨a, s.serial, rfl, Nat.le_refl _, isSo⟩

theorem bind (first : Numbers environment s c holds)
    (next : ∀ a serial, s.serial ≤ serial → holds a serial →
      Numbers environment { s with serial } (f a) goal) :
    Numbers environment s (c >>= f) goal := by
  obtain ⟨a, serial, ran, le, isSo⟩ := first
  obtain ⟨b, later, ranNext, leNext, isGoal⟩ := next a serial le isSo
  refine ⟨b, later, ?_, Nat.le_trans le leNext, isGoal⟩
  rw [run_bind, ran]
  exact ranNext

theorem freshMark : Numbers environment s freshMark fun mark serial =>
    MadeWithin s.serial serial [mark] := by
  refine ⟨.made s.serial, s.serial + 1, rfl, Nat.le_succ _, fun mark among => ?_⟩
  obtain rfl := List.mem_singleton.mp among
  exact ⟨s.serial, rfl, Nat.le_refl _, Nat.lt_succ_self _⟩

end Numbers

/-! ### Copying -/

/-- A run of a copying step, where every copied mark has been made since `low`. -/
def CopiesAnew {α : Type} (low : Nat) (environment : Environment) (s : Store)
    (marks : List (Mark × Mark)) (c : StateT (List (Mark × Mark)) Eval α)
    (holds : α → Nat → Prop) : Prop :=
  Numbers environment s (c.run marks) fun result serial =>
    holds result.1 serial ∧ MadeWithin low serial (result.2.map Prod.snd)

section

variable {α β : Type} {low : Nat} {environment : Environment} {s : Store}
  {marks : List (Mark × Mark)} {c : StateT (List (Mark × Mark)) Eval α}
  {f : α → StateT (List (Mark × Mark)) Eval β} {holds : α → Nat → Prop} {goal : β → Nat → Prop}

theorem CopiesAnew.pure {a : α} (made : MadeWithin low s.serial (marks.map Prod.snd))
    (isSo : holds a s.serial) : CopiesAnew low environment s marks (Pure.pure a) holds :=
  Numbers.pure ⟨isSo, made⟩

theorem CopiesAnew.bind (first : CopiesAnew low environment s marks c holds)
    (next : ∀ a marks serial, s.serial ≤ serial → MadeWithin low serial (marks.map Prod.snd) →
      holds a serial → CopiesAnew low environment { s with serial } marks (f a) goal) :
    CopiesAnew low environment s marks (c >>= f) goal := by
  rw [CopiesAnew, StateT.run_bind]
  exact Numbers.bind first fun result serial le isSo =>
    next result.1 result.2 serial le isSo.2 isSo.1

variable (above : low ≤ s.serial) (made : MadeWithin low s.serial (marks.map Prod.snd))

include above made

theorem copiesAnew_copyMark (mark : Mark) : CopiesAnew low environment s marks (copyMark mark)
    fun copied serial => MadeWithin low serial [copied] := by
  cases found : marks.lookup mark with
  | some copied =>
    have ran : (copyMark mark).run marks = Pure.pure (copied, marks) := by
      simp [copyMark, found]
    rw [CopiesAnew, ran]
    -- a mark that is met again has its copy among those made before
    refine Numbers.pure ⟨made.subset ?_, made⟩
    obtain ⟨before, after, rfl, -⟩ := List.lookup_eq_some_iff.mp found
    simp
  | none =>
    have ran : (copyMark mark).run marks =
        Eval.freshMark >>= fun copied => Pure.pure (copied, (mark, copied) :: marks) := by
      simp [copyMark, found]
    rw [CopiesAnew, ran]
    refine Numbers.freshMark.bind fun copied serial le isNew => ?_
    have isMade : MadeWithin low serial [copied] := isNew.from_lower above
    exact Numbers.pure ⟨isMade, isMade.cons (made.mono le)⟩

omit made in
/-- What is inside a container is copied first, and the own mark of the container after it. -/
theorem copiesAnew_container {same : α → Prop} {marksOf : α → List Mark} {make : α → Mark → Value}
    {v : Value} (mark : Mark)
    (parts : CopiesAnew low environment s marks c fun a serial =>
      same a ∧ MadeWithin low serial (marksOf a))
    (isBare : ∀ a own, same a → (make a own).bare = v.bare)
    (isMarked : ∀ a own, (make a own).ownMarks = own :: marksOf a) :
    CopiesAnew low environment s marks (c >>= fun a => copyMark mark >>= fun own =>
        Pure.pure (make a own)) fun w serial =>
      w.bare = v.bare ∧ MadeWithin low serial w.ownMarks := by
  refine parts.bind fun a marks serial le made isCopy => ?_
  refine (copiesAnew_copyMark (Nat.le_trans above le) made mark).bind
    fun own marks later le made isMade => ?_
  refine .pure made ⟨isBare a own isCopy.1, ?_⟩
  rw [isMarked]
  exact isMade.cons (isCopy.2.mono le)

end

variable {low : Nat} {environment : Environment}

mutual

theorem copiesAnew_copyWith : ∀ (v : Value) {s : Store} {marks : List (Mark × Mark)},
    low ≤ s.serial → MadeWithin low s.serial (marks.map Prod.snd) →
    CopiesAnew low environment s marks (copyWith v) fun w serial =>
      w.bare = v.bare ∧ MadeWithin low serial w.ownMarks
  | .list items mark, s, marks, above, made => by
    rw [copyWith]
    exact copiesAnew_container above mark (copiesAnew_copyItems items above made)
      (fun copied own same => by rw [bare, bare, same]) fun copied own => by rw [ownMarks]
  | .dict entries mark, s, marks, above, made => by
    rw [copyWith]
    exact copiesAnew_container above mark (copiesAnew_copyEntries entries above made)
      (fun copied own same => by rw [bare, bare, same]) fun copied own => by rw [ownMarks]
  | .object name attributes mark, s, marks, above, made => by
    rw [copyWith]
    exact copiesAnew_container above mark (copiesAnew_copyEntries attributes above made)
      (fun copied own same => by rw [bare, bare, same]) fun copied own => by rw [ownMarks]
  | .date d mark, s, marks, above, made => by
    rw [copyWith]
    refine (copiesAnew_copyMark above made mark).bind fun own marks later le made isMade => ?_
    refine .pure made ⟨by rw [bare, bare], ?_⟩
    rw [ownMarks]
    exact isMade
  | .dateTime t mark, s, marks, above, made => by
    rw [copyWith]
    refine (copiesAnew_copyMark above made mark).bind fun own marks later le made isMade => ?_
    refine .pure made ⟨by rw [bare, bare], ?_⟩
    rw [ownMarks]
    exact isMade
  | .null, _, _, _, made | .absent, _, _, _, made | .bool _, _, _, _, made
  | .number _ _, _, _, _, made | .text _ _, _, _, _, made | .function _ _ _ _, _, _, _, made
  | .listView _, _, _, _, made | .mappingView _, _, _, _, made | .document _, _, _, _, made => by
    rw [copyWith]
    · exact .pure made ⟨rfl, by rw [ownMarks] <;> first | exact .nil | simp⟩
    all_goals simp

theorem copiesAnew_copyItems : ∀ (items : List Value) {s : Store} {marks : List (Mark × Mark)},
    low ≤ s.serial → MadeWithin low s.serial (marks.map Prod.snd) →
    CopiesAnew low environment s marks (copyItems items) fun copied serial =>
      bareItems copied = bareItems items ∧ MadeWithin low serial (itemsMarks copied)
  | [], s, marks, above, made => by
    rw [copyItems]
    exact .pure made ⟨rfl, .nil⟩
  | v :: items, s, marks, above, made => by
    rw [copyItems]
    refine (copiesAnew_copyWith v above made).bind fun first marks serial le made isFirst => ?_
    refine (copiesAnew_copyItems items (Nat.le_trans above le) made).bind
      fun rest marks later le made isRest => ?_
    refine .pure made ⟨?_, ?_⟩
    · rw [bareItems, bareItems, isFirst.1, isRest.1]
    · rw [itemsMarks]
      exact (isFirst.2.mono le).append isRest.2

theorem copiesAnew_copyEntries : ∀ (entries : List (String × Value)) {s : Store}
    {marks : List (Mark × Mark)},
    low ≤ s.serial → MadeWithin low s.serial (marks.map Prod.snd) →
    CopiesAnew low environment s marks (copyEntries entries) fun copied serial =>
      bareEntries copied = bareEntries entries ∧ MadeWithin low serial (entriesMarks copied)
  | [], s, marks, above, made => by
    rw [copyEntries]
    exact .pure made ⟨rfl, .nil⟩
  | (key, v) :: entries, s, marks, above, made => by
    rw [copyEntries]
    refine (copiesAnew_copyWith v above made).bind fun first marks serial le made isFirst => ?_
    refine (copiesAnew_copyEntries entries (Nat.le_trans above le) made).bind
      fun rest marks later le made isRest => ?_
    refine .pure made ⟨?_, ?_⟩
    · rw [bareEntries, bareEntries, isFirst.1, isRest.1]
    · rw [entriesMarks]
      exact (isFirst.2.mono le).append isRest.2

end

/-- A copy is the value with new marks. -/
theorem numbers_copy (environment : Environment) (v : Value) (s : Store) :
    Numbers environment s (copy v) fun w serial =>
      w.bare = v.bare ∧ MadeWithin s.serial serial w.ownMarks := by
  rw [copy]
  exact Numbers.bind (copiesAnew_copyWith v (Nat.le_refl _) .nil) fun result serial le isCopy =>
    .pure isCopy.1

/-! ### Merging -/

theorem bare_dict (entries : List (String × Value)) (mark : Mark) :
    bare (.dict entries mark) = .dict (bareEntries entries) default := by rw [bare]

/-- A value that is a mapping without its own marks is a mapping. -/
theorem exists_dict_of_bare {v : Value} {entries : List (String × Value)} {mark : Mark}
    (same : v.bare = bare (.dict entries mark)) :
    ∃ copied own, v = .dict copied own ∧ bareEntries copied = bareEntries entries := by
  have isMapping : v.isMapping = true := by
    rw [← Value.isMapping_bare, same, bare_dict]
    rfl
  obtain ⟨copied, own, rfl⟩ := Value.exists_dict isMapping
  rw [bare_dict, bare_dict] at same
  exact ⟨copied, own, rfl, (Value.dict.inj same).1⟩

theorem numbers_mergeValue_other {update : Value} {base : Option Value} {s : Store}
    (above : low ≤ s.serial) (other : ¬ (base.any Value.isMapping ∧ update.isMapping)) :
    Numbers environment s (Value.mergeValue copy base update) fun merged serial =>
      merged.bare = Value.mergeValue (m := Id) pure (base.map bare) update.bare ∧
        MadeWithin low serial merged.ownMarks := by
  have otherBare : ¬ ((base.map bare).any Value.isMapping ∧ update.bare.isMapping) := by
    cases base with
    | none => simp
    | some base => simpa using other
  rw [Value.mergeValue_of_not_mapping copy other,
    Value.mergeValue_of_not_mapping (m := Id) pure otherBare]
  obtain ⟨w, serial, ran, le, same, made⟩ := numbers_copy environment update s
  exact ⟨w, serial, ran, le, same, made.from_lower above⟩

mutual

theorem numbers_mergeValue : ∀ (update : Value) (base : Option Value) {s : Store},
    low ≤ s.serial → Numbers environment s (Value.mergeValue copy base update) fun merged serial =>
      merged.bare = Value.mergeValue (m := Id) pure (base.map bare) update.bare ∧
        MadeWithin low serial merged.ownMarks
  | .dict updates mark, base, s, above => by
    by_cases mapping : base.any Value.isMapping
    · obtain ⟨_, rfl, isMapping⟩ := (Option.any_eq_true _ _).mp mapping
      obtain ⟨entries, baseMark, rfl⟩ := Value.exists_dict isMapping
      rw [Value.mergeValue]
      refine (numbers_copy environment (.dict entries baseMark) s).bind fun w serial le isCopy => ?_
      obtain ⟨copied, own, rfl, same⟩ := exists_dict_of_bare isCopy.1
      have made : MadeWithin low serial (own :: entriesMarks copied) := by
        rw [← ownMarks]
        exact isCopy.2.from_lower above
      dsimp only
      -- the entries are merged into those of the copy, whose mark stays
      refine (numbers_mergeEntries updates copied (Nat.le_trans above le)
        (made.subset (List.subset_cons_self _ _))).bind fun merged later leLater isMerge => ?_
      refine .pure ⟨?_, ?_⟩
      · rw [bare_dict, isMerge.1, same, Option.map_some, bare_dict, bare_dict]
        exact (Value.merge_dict _ _ _ _).symm
      · rw [ownMarks]
        exact ((made.subset (by simp)).mono leLater).cons isMerge.2
    · exact numbers_mergeValue_other above fun both => mapping both.1
  | .null, _, _, above | .absent, _, _, above | .bool _, _, _, above | .number _ _, _, _, above
  | .text _ _, _, _, above | .date _ _, _, _, above | .dateTime _ _, _, _, above
  | .list _ _, _, _, above | .object _ _ _, _, _, above | .function _ _ _ _, _, _, above
  | .listView _, _, _, above | .mappingView _, _, _, above | .document _, _, _, above =>
    numbers_mergeValue_other above (by simp [Value.isMapping])

theorem numbers_mergeEntries : ∀ (updates result : List (String × Value)) {s : Store},
    low ≤ s.serial → MadeWithin low s.serial (entriesMarks result) →
    Numbers environment s (Value.mergeEntries copy result updates) fun merged serial =>
      bareEntries merged =
          Value.mergeEntries (m := Id) pure (bareEntries result) (bareEntries updates) ∧
        MadeWithin low serial (entriesMarks merged)
  | [], result, s, above, made => by
    rw [Value.mergeEntries]
    exact .pure ⟨rfl, made⟩
  | (key, update) :: updates, result, s, above, made => by
    rw [Value.mergeEntries]
    refine (numbers_mergeValue update (result.lookup key) above).bind
      fun merged serial le isMerge => ?_
    -- putting an entry in brings marks of the merge only, which may replace others
    have putMade : MadeWithin low serial (entriesMarks (Value.putEntry key merged result)) :=
      (isMerge.2.append (made.mono le)).subset
        (Value.entriesMarks_putEntry_subset key merged result)
    obtain ⟨rest, later, ran, leLater, isRest⟩ := numbers_mergeEntries (s := { s with serial })
      updates (Value.putEntry key merged result) (Nat.le_trans above le) putMade
    refine ⟨rest, later, ran, leLater, ?_, isRest.2⟩
    rw [isRest.1, Value.bareEntries_putEntry, isMerge.1, bareEntries, Value.mergeEntries_cons,
      Value.lookup_bareEntries]

end

end LazyConfig.Evaluation
