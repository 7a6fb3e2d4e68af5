import LazyConfig.Proofs.Container.Walk
import LazyConfig.Proofs.Merge.Run

/-!
# Operators on containers

The sum, the union and the difference of views, compared with what their operands materialize to:
mappings are merged and reduced, lists are concatenated. The result consists of views that stand for
plain values, apart from the elements of lists, which are shared.
-/

namespace LazyConfig.Operator

open Eval
open Evaluation
open Resolution (emptyWorld exists_of_any opened walk)
open Syntax (InfixOp)
open Value (Matches bare entriesPlain)

/-! ### What views give back -/

/-- From here on the value materializes to the plain value, whatever is evaluated before. -/
def Yields (s : Store) (w v : Value) : Prop :=
  ∀ later, s.Keeps later → ∀ environment depth, v.height ≤ depth →
    GivesBack environment later ((⟨answerWithin depth⟩ : Machine).materialize w) v

section

variable {environment : Environment} {s s₁ s₂ later : Store} {owner : DocumentId}

theorem yields_of_stands {v w : Value} (plain : v.isPlain = true) (stands : Stands s w v) :
    Yields s w v :=
  fun _ keeps _ _ deep => givesBack_materialize v plain deep (stands.later keeps)

theorem run_toView_plain (environment : Environment) (owner : DocumentId) {v : Value} (s : Store)
    (plain : v.isPlain = true) : ∃ w later,
    (toView owner v).run environment s = (.ok w, later) ∧ s.Keeps later ∧ Stands later w v ∧
      Yields later w v := by
  obtain ⟨w, later, ran, keeps, stands⟩ := run_toView v s
  exact ⟨w, later, ran, keeps, stands, yields_of_stands plain stands⟩

/-! ### Mappings -/

/-- The merge of plain mappings as a view. -/
theorem run_mergedView (environment : Environment) (owner : DocumentId) {base update : Value}
    (s : Store) (ofBase : base.isPlain = true) (ofUpdate : update.isPlain = true) :
    ∃ w merged later,
    (mergedView owner base update).run environment s = (.ok w, later) ∧
      Merged base update merged ∧ Stands later w merged ∧ Yields later w merged := by
  obtain ⟨merged, serial, ran, -, same, -⟩ := run_mergeValue environment s base update
  have plain : merged.isPlain = true := by
    rw [← Value.isPlain_bare] at ofBase ofUpdate
    rw [← Value.isPlain_bare, same]
    exact Value.isPlain_mergeValue update.bare ofBase ofUpdate
  obtain ⟨w, later, ranView, -, stands, yields⟩ :=
    run_toView_plain environment owner { s with serial } plain
  refine ⟨w, merged, later, ?_, ⟨environment, s, _, ran⟩, stands, yields⟩
  rw [mergedView, run_bind, ran]
  exact ranView

/-- The operators that merge mappings. -/
def isMerging (op : InfixOp) : Prop := op = .add ∨ op = .bitOr

theorem run_apply_merging (owner : DocumentId) {m : Machine} {op : InfixOp}
    (merging : isMerging op) {l r : ViewId} {base update : Value}
    (ranLeft : (asDict m l).run environment s = (.ok base, s₁))
    (ranRight : (asDict m r).run environment s₁ = (.ok update, s₂)) (ofBase : base.isPlain = true)
    (ofUpdate : update.isPlain = true) : ∃ w merged later,
    (apply m owner op (.mappingView l) (.mappingView r)).run environment s =
        (.ok (.value w), later) ∧
      Merged base update merged ∧ Stands later w merged ∧ Yields later w merged := by
  obtain ⟨w, merged, later, ran, isMerge, stands, yields⟩ :=
    run_mergedView environment owner s₂ ofBase ofUpdate
  refine ⟨w, merged, later, ?_, isMerge, stands, yields⟩
  have applied : apply m owner op (.mappingView l) (.mappingView r) = mergeViews m owner l r := by
    rcases merging with rfl | rfl <;> rfl
  rw [applied, mergeViews, run_bind, ranLeft]
  dsimp only
  rw [run_bind, ranRight]
  dsimp only
  rw [run_bind, ran]
  rfl

/-- The difference of mappings leaves out the keys on the right, whose values are not evaluated. -/
theorem run_apply_subtract {m : Machine} (asked : ∀ request, (m.ask request).Evolving)
    {l r : ViewId} {other : DocumentId} {others : List (String × Slot)}
    {items : List (String × Value)} {mark : Mark} (isRight : s.view r = .mapping other others)
    (ranLeft : (asDict m l).run environment s = (.ok (.dict items mark), s₁))
    (plain : entriesPlain items = true) : ∃ w later,
    (apply m owner .subtract (.mappingView l) (.mappingView r)).run environment s =
        (.ok (.value w), later) ∧
      let remaining := Value.dict (items.filter fun entry => entry.1 ∉ others.map Prod.fst) mark
      Stands later w remaining ∧ Yields later w remaining := by
  -- a mapping has the same entries as long as it is there
  have inside : r < s.views.size := by
    by_contra beyond
    rw [Store.view_of_size_le (Nat.not_lt.mp beyond)] at isRight
    cases isRight
  have stillRight : s₁.view r = .mapping other others := by
    have keeps := ((evolving_asDict asked l).keeps ranLeft).views r inside
    rw [isRight] at keeps
    exact keeps.eq_of_mapping
  have remainingPlain : (Value.dict (items.filter fun entry => entry.1 ∉ others.map Prod.fst)
      mark).isPlain = true := by
    rw [Value.isPlain]
    exact Value.entriesPlain_filter _ plain
  obtain ⟨w, later, ranView, -, stands, yields⟩ :=
    run_toView_plain environment owner s₁ remainingPlain
  refine ⟨w, later, ?_, stands, yields⟩
  change (withoutKeys m owner l r).run environment s = _
  rw [withoutKeys, run_bind, ranLeft]
  dsimp only
  rw [run_bind, keys, run_bind, run_entries stillRight]
  dsimp only
  rw [run_pure]
  dsimp only
  rw [List.filter_congr (q := fun entry => entry.1 ∉ others.map Prod.fst), run_bind, ranView]
  · rfl
  · intro entry _
    simp

/-! ### Lists -/

theorem run_of_run_iterating {α : Type} {body : Eval α} {a : α}
    (ran : (iterating body).run environment s = (.ok a, later)) :
    body.run environment s = (.ok a, later) := by
  rw [run_iterating] at ran
  split at ran
  · cases ran
  · exact ran

theorem run_mapM_of_iterating {m : Machine} {id : ViewId} {indices : List Nat} {items : List Value}
    (ran : (indices.mapM fun index => iterating (element m id index)).run environment s =
      (.ok items, later)) :
    (indices.mapM (element m id)).run environment s = (.ok items, later) := by
  induction indices generalizing s items with
  | nil => exact ran
  | cons index indices ih =>
    rw [List.mapM_cons] at ran ⊢
    obtain ⟨v, middle, first, ran⟩ := run_bind_ok ran
    obtain ⟨others, behind, rest, ran⟩ := run_bind_ok ran
    cases ran
    rw [run_bind, run_of_run_iterating first]
    dsimp only
    rw [run_bind, ih rest]
    rfl

/-- The elements of a list that have been evaluated are still in its slots later on. -/
theorem held_of_run_elements {m : Machine} (asked : ∀ request, (m.ask request).Evolving)
    {id : ViewId} {items : List Value} (inside : id < s.views.size)
    (ran : (elements m id).run environment s = (.ok items, s₁)) (keeps : s₁.Keeps later) :
    List.Forall₂ (fun index v => (later.view id).value? index = some v)
      (List.range (later.view id).slots.length) items := by
  have kept : s.Keeps later := ((evolving_elements asked id).keeps ran).trans keeps
  rw [(kept.views id inside).length_slots]
  rw [elements, run_bind, run_viewSlots] at ran
  exact (value?_of_run_elements asked (run_mapM_of_iterating ran)).imp
    fun _ _ held => keeps.value? held

/-- The sum of lists is a list of their elements, and is materialized like one list after the
other. -/
theorem run_apply_lists (owner : DocumentId) {m : Machine}
    (asked : ∀ request, (m.ask request).Evolving) {l r : ViewId} {xs ys : List Value}
    (leftInside : l < s.views.size) (rightInside : r < s.views.size)
    (ranLeft : (elements m l).run environment s = (.ok xs, s₁))
    (ranRight : (elements m r).run environment s₁ = (.ok ys, s₂)) : ∃ id later,
    (apply m owner .add (.listView l) (.listView r)).run environment s =
        (.ok (.value (.listView id)), later) ∧
      later.view id = .list owner ((xs ++ ys).map .value) ∧
      ∀ last, later.Keeps last → ∀ environment depth,
        (plainItems ⟨answerWithin depth⟩ id).run environment last =
          (do
            let first ← plainItems ⟨answerWithin depth⟩ l
            let second ← plainItems ⟨answerWithin depth⟩ r
            return first ++ second : Eval (List Value)).run environment last := by
  let sum := View.list owner ((xs ++ ys).map .value)
  have isSum : (s₂.addView sum).2.view s₂.views.size = sum := Store.view_addView s₂ sum
  refine ⟨s₂.views.size, (s₂.addView sum).2, ?_, isSum, fun last keeps environment depth => ?_⟩
  · change (add m owner (.listView l) (.listView r)).run environment s = _
    rw [add, run_bind, ranLeft]
    dsimp only
    rw [run_bind, ranRight]
    rfl
  · have askedHere := evolving_answerWithin depth
    have added : s₂.Keeps (s₂.addView sum).2 := .addView s₂ sum
    have leftHeld := held_of_run_elements asked leftInside ranLeft
      (((evolving_elements asked r).keeps ranRight).trans (added.trans keeps))
    have sumHeld : last.view s₂.views.size = .list owner ((xs ++ ys).map .value) := by
      have kept := keeps.views s₂.views.size (by simp [Store.addView])
      rw [isSum] at kept
      exact kept.eq_of_values
    rw [run_plainItems_of_values askedHere (held_of_values sumHeld), List.mapM_append, run_bind,
      run_bind, run_plainItems_of_values askedHere leftHeld]
    rcases ran : (xs.mapM (⟨answerWithin depth⟩ : Machine).materialize).run environment last with
      ⟨failure | first, middle⟩
    · rfl
    · -- the elements on the right stay while those on the left are materialized
      have stays : last.Keeps middle :=
        (Evolving.mapM (fun v => askedHere (.materialize v)) xs).keeps ran
      have rightHeld := held_of_run_elements asked
        (rightInside.trans_le ((evolving_elements asked l).keeps ranLeft).size) ranRight
        (added.trans (keeps.trans stays))
      dsimp only
      rw [run_bind, run_bind,
        run_plainItems_of_values (m := ⟨answerWithin depth⟩) askedHere rightHeld]

/-! ### Results as operands -/

/-- What stands for a plain mapping is the view of a mapping that can be taken as an operand. -/
theorem exists_mappingView_of_stands {a w : Value} {depth : Nat} (mapping : a.isMapping)
    (plain : a.isPlain = true) (deep : a.height ≤ depth + 1) (stands : Stands s w a) :
    ∃ id, w = .mappingView id ∧
      ∀ environment, GivesBack environment s (asDict ⟨answerWithin depth⟩ id) a := by
  obtain ⟨entries, mark, rfl⟩ := Value.exists_dict mapping
  have asView := stands
  rw [Stands] at asView
  obtain ⟨id, _, _, rfl, -⟩ := asView
  exact ⟨id, rfl, fun _ => givesBack_materialize (.dict entries mark) plain deep stands⟩

theorem run_apply_again {depth : Nat} {op : InfixOp} (merging : isMerging op) {a b l r : Value}
    (mappings : a.isMapping ∧ b.isMapping) (plain : a.isPlain = true ∧ b.isPlain = true)
    (deep : a.height ≤ depth + 1 ∧ b.height ≤ depth + 1) (left : Stands s l a)
    (right : Stands s r b) : ∃ w merged later,
    (apply ⟨answerWithin depth⟩ owner op l r).run environment s = (.ok (.value w), later) ∧
      (∃ ab, Merged a b ab ∧ Matches merged ab) ∧ Stands later w merged ∧
        Yields later w merged := by
  obtain ⟨leftId, rfl, givesLeft⟩ := exists_mappingView_of_stands mappings.1 plain.1 deep.1 left
  obtain ⟨base, serial, ranLeft, -, ofBase⟩ := givesLeft environment
  -- evaluating the left operand leaves the views that the right one stands on
  obtain ⟨rightId, rfl, givesRight⟩ := exists_mappingView_of_stands mappings.2 plain.2 deep.2
    (right.later (.numbered s serial))
  obtain ⟨update, last, ranRight, -, ofUpdate⟩ := givesRight environment
  have basePlain : base.isPlain = true := by
    rw [← Value.isPlain_bare, ofBase, Value.isPlain_bare, plain.1]
  have updatePlain : update.isPlain = true := by
    rw [← Value.isPlain_bare, ofUpdate, Value.isPlain_bare, plain.2]
  obtain ⟨w, merged, later, ran, isMerge, stands, yields⟩ :=
    run_apply_merging owner merging ranLeft ranRight basePlain updatePlain
  obtain ⟨ab, ofBoth⟩ := exists_merged a b
  refine ⟨w, merged, later, ran, ⟨ab, ofBoth, ?_⟩, stands, yields⟩
  rw [Matches, isMerge.bare, ofBoth.bare, ofBase, ofUpdate]

end

/-! ### Operators and materialization -/

/-- Operators on containers and materialization, where one evaluation comes after the other. The
merge of two mappings materializes to the merge of what they materialize to, the difference to what
the left one materializes to without the keys on the right, and the sum of two lists to one list
after the other. The view of a plain value materializes to this value; paths lead through it as they
lead through the value, and it is merged again as the value is. -/
theorem containers_commute (environment : Environment) (depth : Nat) (owner : DocumentId) :
    let m : Machine := ⟨answerWithin depth⟩
    let outer : Machine := ⟨answerWithin (depth + 1)⟩
    (∀ op l r s s₁ s₂ base update, isMerging op →
      (outer.materialize (.mappingView l)).run environment s = (.ok base, s₁) →
      (outer.materialize (.mappingView r)).run environment s₁ = (.ok update, s₂) →
      base.isPlain = true → update.isPlain = true → ∃ w merged later,
        (apply m owner op (.mappingView l) (.mappingView r)).run environment s =
            (.ok (.value w), later) ∧
          Merged base update merged ∧ Stands later w merged ∧ Yields later w merged) ∧
    (∀ l r s s₁ other others items mark, s.view r = .mapping other others →
      (outer.materialize (.mappingView l)).run environment s = (.ok (.dict items mark), s₁) →
      entriesPlain items = true → ∃ w later,
        (apply m owner .subtract (.mappingView l) (.mappingView r)).run environment s =
            (.ok (.value w), later) ∧
          let remaining := Value.dict (items.filter fun entry => entry.1 ∉ others.map Prod.fst) mark
          Stands later w remaining ∧ Yields later w remaining) ∧
    (∀ l r s s₁ s₂ xs ys, l < s.views.size → r < s.views.size →
      (elements m l).run environment s = (.ok xs, s₁) →
      (elements m r).run environment s₁ = (.ok ys, s₂) → ∃ id later,
        (apply m owner .add (.listView l) (.listView r)).run environment s =
            (.ok (.value (.listView id)), later) ∧
          ∀ last, later.Keeps last → ∀ environment depth,
            ((⟨answerWithin (depth + 1)⟩ : Machine).materialize (.listView id)).run environment
                last =
              (do
                let first ← plainItems ⟨answerWithin depth⟩ l
                let second ← plainItems ⟨answerWithin depth⟩ r
                newList (first ++ second)).run environment last) ∧
    (∀ v s, v.isPlain = true → ∃ w later,
      (toView owner v).run environment s = (.ok w, later) ∧ Stands later w v ∧ Yields later w v) ∧
    (∀ s v w path moves evaluator, v.isPlain = true → Stands s w v →
      List.Forall₂ Written path.steps moves → ∃ serial, LeadsTo { s with serial }
        ((walk outer path (evaluator, w)).run environment s) (v.descend? moves)) ∧
    (∀ op s a b l r, isMerging op → a.isMapping ∧ b.isMapping →
      a.isPlain = true ∧ b.isPlain = true → a.height ≤ depth + 1 ∧ b.height ≤ depth + 1 →
      Stands s l a → Stands s r b → ∃ w merged later,
        (apply m owner op l r).run environment s = (.ok (.value w), later) ∧
          (∃ ab, Merged a b ab ∧ Matches merged ab) ∧ Stands later w merged ∧
            Yields later w merged) := by
  intro m outer
  have asked := evolving_answerWithin depth
  refine ⟨?_, ?_, ?_, ?_, ?_, ?_⟩
  · intro op l r s s₁ s₂ base update merging ranLeft ranRight ofBase ofUpdate
    exact run_apply_merging owner merging ranLeft ranRight ofBase ofUpdate
  · intro l r s s₁ other others items mark isRight ranLeft plain
    exact run_apply_subtract (m := m) asked isRight ranLeft plain
  · intro l r s s₁ s₂ xs ys leftInside rightInside ranLeft ranRight
    obtain ⟨id, later, ran, -, concatenated⟩ :=
      run_apply_lists owner asked leftInside rightInside ranLeft ranRight
    refine ⟨id, later, ran, fun last keeps environment depth => ?_⟩
    change (asList ⟨answerWithin depth⟩ id).run environment last = _
    rw [asList_eq, run_bind, concatenated last keeps environment depth, ← run_bind]
    simp only [bind_assoc, pure_bind]
  · intro v s plain
    obtain ⟨w, later, ran, -, stands, yields⟩ := run_toView_plain environment owner s plain
    exact ⟨w, later, ran, stands, yields⟩
  · intro s v w path moves evaluator plain stands written
    exact leadsTo_walk written plain stands evaluator
  · intro op s a b l r merging mappings plain deep left right
    exact run_apply_again merging mappings plain deep left right

/-- Mappings with a common key, and lists. -/
def containerText : Text.Decoded :=
  ⟨("l: \x7ba: 1, n: \x7bx: 1\x7d\x7d\nr: \x7bn: \x7by: [2]\x7d\x7d\n" ++
    "p: [1, \x7bq: 2\x7d]\nt: [3]").toList, none⟩

/-- The store with a view for each of the containers, in their order after that of the root. -/
def containerStore : Store :=
  ((do
    let id ← opened false containerText none
    ["l", "r", "p", "t"].mapM (Document.follow id)).run emptyWorld {}).2

theorem exists_run_of_any {α : Type} (e : Eval α) (s : Store) (holds : α → Bool)
    (some : ((e.run emptyWorld s).1.toOption.any holds) = true) :
    ∃ a, e.run emptyWorld s = (.ok a, (e.run emptyWorld s).2) ∧ holds a = true := by
  obtain ⟨a, isResult, isSo⟩ := exists_of_any _ holds some
  exact ⟨a, Prod.ext isResult rfl, isSo⟩

theorem containers_commute_views :
    let m : Machine := ⟨answerWithin 9⟩
    (∃ w merged later, (apply m 0 .bitOr (.mappingView 1) (.mappingView 2)).run emptyWorld
      containerStore = (.ok (.value w), later) ∧ Yields later w merged) ∧
    (∃ id later, (apply m 0 .add (.listView 3) (.listView 4)).run emptyWorld containerStore =
      (.ok (.value (.listView id)), later)) := by
  intro m
  let left := (⟨answerWithin 10⟩ : Machine).materialize (.mappingView 1)
  let right := (⟨answerWithin 10⟩ : Machine).materialize (.mappingView 2)
  let reached := (left.run emptyWorld containerStore).2
  let behind := ((elements m 3).run emptyWorld containerStore).2
  obtain ⟨ofLeft, ofRight, ofFirst, ofSecond, firstInside, secondInside⟩ :
      ((left.run emptyWorld containerStore).1.toOption.any Value.isPlain) = true ∧
      ((right.run emptyWorld reached).1.toOption.any Value.isPlain) = true ∧
      (((elements m 3).run emptyWorld containerStore).1.toOption.any fun _ => true) = true ∧
      (((elements m 4).run emptyWorld behind).1.toOption.any fun _ => true) = true ∧
      3 < containerStore.views.size ∧ 4 < containerStore.views.size := by
    decide +kernel
  obtain ⟨base, ranLeft, basePlain⟩ := exists_run_of_any _ _ _ ofLeft
  obtain ⟨update, ranRight, updatePlain⟩ := exists_run_of_any _ _ _ ofRight
  obtain ⟨xs, ranFirst, -⟩ := exists_run_of_any _ _ _ ofFirst
  obtain ⟨ys, ranSecond, -⟩ := exists_run_of_any _ _ _ ofSecond
  obtain ⟨merges, -, sums, -⟩ := containers_commute emptyWorld 9 0
  constructor
  · obtain ⟨w, merged, later, ran, -, -, yields⟩ :=
      merges _ _ _ _ _ _ _ _ (.inr rfl) ranLeft ranRight basePlain updatePlain
    exact ⟨w, merged, later, ran, yields⟩
  · obtain ⟨id, later, ran, -⟩ := sums _ _ _ _ _ _ _ firstInside secondInside ranFirst ranSecond
    exact ⟨id, later, ran⟩

/-- Mappings whose entries lead in a circle through a text, which takes the place of its value where
it is not converted. -/
def circularText : Text.Decoded :=
  ⟨("e: `A$\x7bx[0]\x7d`\nx: [$\x7be\x7d + 'q']\nl: \x7ba: $\x7be\x7d\x7d\n" ++
    "r: \x7bb: $\x7bx[0]\x7d\x7d\nu: $\x7bl\x7d | $\x7br\x7d").toList, none⟩

/-- A world in which texts that cannot be converted stay as they are. -/
def lenientWorld : Environment := { emptyWorld with settings := { strictConversions := false } }

def circularStore : Store := ((opened false circularText none).run lenientWorld {}).2

def texts? : Except Failure Value → Option (List (String × String))
  | .ok (.dict entries _) => entries.mapM fun
    | (key, .text text _) => some (key, text)
    | _ => none
  | _ => none

/-- The union of two mappings that have been looked up can differ from the merge of what they were
found to be: an element that was evaluated by the second lookup changes what a text in the first
mapping is converted to. -/
theorem union_differs_from_lookups :
    let left := (Document.get 0 "l").run lenientWorld circularStore
    let right := (Document.get 0 "r").run lenientWorld left.2
    let union := (Document.get 0 "u").run lenientWorld right.2
    texts? left.1 = some [("a", "A$\x7bx[0]\x7d")] ∧
      texts? right.1 = some [("b", "A$\x7bx[0]\x7dq")] ∧
      texts? union.1 = some [("a", "AA$\x7bx[0]\x7dq"), ("b", "A$\x7bx[0]\x7dq")] := by
  decide +kernel

end LazyConfig.Operator
