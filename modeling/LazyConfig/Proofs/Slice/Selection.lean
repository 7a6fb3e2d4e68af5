import LazyConfig.Proofs.Evaluation.Kept
import LazyConfig.Proofs.Resolution.Document
import LazyConfig.Proofs.Slice.Positions

/-!
# What slices select

A slice evaluates its step, its bounds and then the elements at its positions, and makes a list of
them. Forwards it selects what the standard convention says, apart from a start beyond the end of the
list. Backwards it starts one place behind the stop that is written out.
-/

namespace LazyConfig.Slice

open Eval
open Evaluation
open Resolution (stride positions sliced_eq emptyWorld opened)
open Syntax (Bounds)

/-! ### The standard convention -/

/-- Every so many elements of a list, from the first one on that is not to be skipped. -/
def everyNth {α : Type} (step : Nat) : Nat → List α → List α
  | _, [] => []
  | 0, a :: items => a :: everyNth step (step - 1) items
  | skip + 1, _ :: items => everyNth step skip items

/-- The place of a bound by the standard convention, which moves what lies outside the list to its
nearer end. -/
def standardPlace (size absent : Nat) : Option Int → Nat
  | none => absent
  | some bound => min (place size bound) size

/-- The slice of a list forwards by the standard convention. -/
def standardSlice {α : Type} (items : List α) (start stop : Option Int) (step : Nat) : List α :=
  let first := standardPlace items.length 0 start
  let last := standardPlace items.length items.length stop
  everyNth step 0 ((items.take last).drop first)

example : standardSlice [0, 1, 2, 3, 4, 5, 6] (some (-5)) none 2 = [2, 4, 6] := by decide

variable {α : Type}

/-- Positions in steps, counted from a place before them, are every so many elements. -/
theorem filterMap_steps {items : List α} {step base : Nat} (forward : 0 < step) (count : Nat) :
    ∀ first skip : Nat, base ≤ first → first + count ≤ items.length → skip < step →
      step ∣ first + skip - base →
      ((List.range' first count).filter fun p => step ∣ p - base).filterMap (items[·]?) =
        everyNth step skip ((items.drop first).take count) := by
  induction count with
  | zero =>
    intro first skip _ _ _ _
    cases skip <;> rfl
  | succ count ih =>
    intro first skip above inside few steps
    have within : first < items.length := by omega
    have isElement : items[first]? = some items[first] := List.getElem?_eq_getElem within
    rw [List.range'_succ, List.drop_eq_getElem_cons within, List.take_succ_cons]
    cases skip with
    | zero =>
      have kept : step ∣ first - base := steps
      rw [List.filter_cons_of_pos (by simpa using kept), List.filterMap_cons, isElement, everyNth]
      have next : step ∣ first + 1 + (step - 1) - base := by
        rw [show first + 1 + (step - 1) - base = first - base + step by omega]
        exact Nat.dvd_add kept (Nat.dvd_refl step)
      rw [← ih (first + 1) (step - 1) (by omega) (by omega) (by omega) next]
    | succ skip =>
      -- the next position in steps lies ahead by less than a step
      have left : ¬ step ∣ first - base := by
        intro divides
        rw [show first + (skip + 1) - base = first - base + (skip + 1) by omega,
          Nat.dvd_add_right divides] at steps
        exact absurd (Nat.le_of_dvd (by omega) steps) (by omega)
      rw [List.filter_cons_of_neg (by simpa using left), everyNth]
      refine ih (first + 1) skip (by omega) (by omega) (by omega) ?_
      rwa [show first + 1 + skip - base = first + (skip + 1) - base by omega]

/-- What lies at the positions of a slice forwards that starts in the list is the standard slice. -/
theorem filterMap_ascending {items : List α} {start stop : Option Int} {step : Nat}
    (forward : 0 < step) (starts : ∀ bound ∈ start, bound < items.length) :
    (ascending (firstPlace items.length start) (lastPlace items.length stop) step).filterMap
        (items[·]?) =
      standardSlice items start stop step := by
  have isFirst : firstPlace items.length start = standardPlace items.length 0 start := by
    cases start with
    | none => rfl
    | some bound =>
      have inside := starts bound rfl
      simp only [firstPlace, standardPlace, place]
      split <;> omega
  have isLast : lastPlace items.length stop = standardPlace items.length items.length stop := by
    cases stop <;> rfl
  have below := lastPlace_le items.length stop
  rw [standardSlice, ← isFirst, ← isLast, List.drop_take, ascending]
  -- from here on only the two places matter
  generalize firstPlace items.length start = first at *
  generalize lastPlace items.length stop = last at *
  by_cases empty : last ≤ first
  · rw [Nat.sub_eq_zero_of_le empty]
    rfl
  · exact filterMap_steps forward _ first 0 (Nat.le_refl _) (by omega) forward (by simp)

/-! ### Slices of list views -/

/-- The step and the bounds of a slice, evaluated in this order. -/
def readBounds (m : Machine) (evaluator : DocumentId) (bounds : Bounds Node) :
    Eval (Int × Option Int × Option Int) := do
  let step ← stride m evaluator bounds
  let start ← bounds.start.mapM (bound m evaluator)
  let stop ← bounds.stop.mapM (bound m evaluator)
  return (step, start, stop)

section

variable {m : Machine} {environment : Environment} {s middle left : Store} {evaluator : DocumentId}
  {id : ViewId} {owner : DocumentId} {slots : List Slot} {bounds : Bounds Node} {step : Int}
  {start stop : Option Int}

theorem run_sliced_empty (isEmpty : s.view id = .list owner []) (moves : step ≠ 0)
    (read : (stride m evaluator bounds).run environment s = (.ok step, middle)) :
    (sliced m evaluator id bounds).run environment s =
      (.ok (.listView middle.views.size), (middle.addView (.list owner [])).2) := by
  rw [sliced_eq, run_bind, run_slots isEmpty]
  dsimp only
  rw [run_bind, run_viewOwner, isEmpty]
  dsimp only
  rw [run_bind, read]
  dsimp only
  rw [run_bind, positions, if_neg moves]
  rfl

/-- A slice evaluates the elements at its positions after its step and its bounds. -/
theorem run_sliced (isList : s.view id = .list owner slots) (nonempty : slots ≠ [])
    (moves : step ≠ 0)
    (read : (readBounds m evaluator bounds).run environment s = (.ok (step, start, stop), middle)) :
    (sliced m evaluator id bounds).run environment s =
      ((slicePositions slots.length start stop step).mapM (element m id) >>= fun items =>
        return .listView (← addView (.list owner (items.map .value)))).run environment middle := by
  obtain ⟨step', first, isStep, read⟩ := run_bind_ok read
  obtain ⟨start', second, isStart, read⟩ := run_bind_ok read
  obtain ⟨stop', third, isStop, read⟩ := run_bind_ok read
  cases read
  have size : slots.length ≠ 0 := by simpa using nonempty
  have selects : (positions m evaluator slots.length bounds step).run environment first =
      (.ok (slicePositions slots.length start stop step), middle) := by
    rw [positions, if_neg moves, if_neg size, run_bind, isStart]
    dsimp only
    rw [run_bind, isStop]
    rfl
  rw [sliced_eq, run_bind, run_slots isList]
  dsimp only
  rw [run_bind, run_viewOwner, isList]
  dsimp only
  rw [run_bind, isStep]
  dsimp only
  rw [run_bind, selects]
  rfl

theorem evolving_readBounds (asked : ∀ request, (m.ask request).Evolving) :
    (readBounds m evaluator bounds).Evolving :=
  (evolving_stride asked evaluator bounds).bind fun _ =>
    (Evolving.optionMapM (evolving_bound asked evaluator) _).bind fun _ =>
      (Evolving.optionMapM (evolving_bound asked evaluator) _).bind fun _ => .pure _

/-- If the elements at its positions evaluate, a slice gives a new list of them, and they are what
the view of the sliced list then holds at these positions. -/
theorem run_sliced_of_elements (asked : ∀ request, (m.ask request).Evolving)
    (isList : s.view id = .list owner slots) (nonempty : slots ≠ []) (moves : step ≠ 0)
    (read : (readBounds m evaluator bounds).run environment s = (.ok (step, start, stop), middle))
    {selected : List Nat} (selects : slicePositions slots.length start stop step = selected)
    {items : List Value}
    (evaluated : (selected.mapM (element m id)).run environment middle = (.ok items, left)) :
    (sliced m evaluator id bounds).run environment s =
        (.ok (.listView left.views.size), (left.addView (.list owner (items.map .value))).2) ∧
      ∃ later, left.view id = .list owner later ∧ later.length = slots.length ∧
        items.map .value = selected.filterMap (later[·]?) := by
  constructor
  · rw [run_sliced isList nonempty moves read, selects, run_bind, evaluated]
    rfl
  · -- the list has kept its length, and what has been evaluated first is still there at the end
    have kept : s.Keeps left := ((evolving_readBounds asked).keeps read).trans
      ((Evolving.mapM (evolving_element asked id) selected).keeps evaluated)
    have slot : 0 < (s.view id).slots.length := by
      rw [isList]
      exact List.length_pos_iff.mpr nonempty
    have inside : id < s.views.size := Store.lt_size_of_slot slot
    have views := kept.views id inside
    have holds := value?_of_run_elements asked evaluated
    rw [isList] at views
    cases isLater : left.view id with
    | mapping owner entries =>
      rw [isLater] at views
      cases views
    | list owner later =>
      rw [isLater] at views holds
      cases views with
      | list _ length values =>
        exact ⟨later, rfl, length, (View.filterMap_of_value? holds).symm⟩

end

/-! ### Forwards -/

variable {environment : Environment} {s : Store} {evaluator : DocumentId} {id : ViewId}
  {owner : DocumentId} {slots : List Slot} {bounds : Bounds Node} {step : Int}

/-- A slice forwards of a list whose elements evaluate gives a new list. That of an empty list is
empty; another one holds the evaluated elements from the start on, in steps, below the stop, and that
is the standard slice unless the start lies beyond the end. -/
theorem forward_slice (depth : Nat) (isList : s.view id = .list owner slots) (forward : 1 ≤ step) :
    let m : Machine := ⟨answerWithin depth⟩
    let size := slots.length
    (slots = [] → ∀ middle,
      (stride m evaluator bounds).run environment s = (.ok step, middle) →
      (sliced m evaluator id bounds).run environment s =
        (.ok (.listView middle.views.size), (middle.addView (.list owner [])).2)) ∧
    (slots ≠ [] → ∀ start stop middle,
      (readBounds m evaluator bounds).run environment s = (.ok (step, start, stop), middle) →
      let selected := ascending (firstPlace size start) (lastPlace size stop) step.toNat
      selected.Pairwise (· < ·) ∧ (∀ p ∈ selected, p < size) ∧
      ∀ items left, (selected.mapM (element m id)).run environment middle = (.ok items, left) →
        (sliced m evaluator id bounds).run environment s =
          (.ok (.listView left.views.size), (left.addView (.list owner (items.map .value))).2) ∧
        ∃ later, left.view id = .list owner later ∧ later.length = size ∧
          items.map .value = selected.filterMap (later[·]?) ∧
          ((∀ bound ∈ start, bound < size) →
            items.map .value = standardSlice later start stop step.toNat)) := by
  intro m size
  have moves : step ≠ 0 := by omega
  constructor
  · rintro rfl middle read
    exact run_sliced_empty isList moves read
  · intro nonempty start stop middle read selected
    have selects : slicePositions size start stop step = selected :=
      slicePositions_forward (List.length_pos_iff.mpr nonempty) forward start stop
    refine ⟨pairwise_ascending _ _ _, ?_, ?_⟩
    · intro p among
      exact (mem_ascending.mp among).2.1.trans_le (lastPlace_le size stop)
    · intro items left evaluated
      obtain ⟨ran, later, isLater, length, holds⟩ :=
        run_sliced_of_elements (evolving_answerWithin depth) isList nonempty moves read selects
          evaluated
      refine ⟨ran, later, isLater, length, holds, ?_⟩
      intro starts
      have sameSize : size = later.length := length.symm
      rw [sameSize] at starts
      rw [← filterMap_ascending (by omega) starts, ← sameSize]
      exact holds

/-- An integer of a text. -/
def integerAt (n : Nat) : Node := .leaf ⟨.integer, toString n, .int n, ⟨0, ⟨1, n⟩, ⟨1, n⟩⟩⟩

/-- The store of a document whose only view is a list of seven integers. -/
def sevenStore : Store where
  documents := #[{}]
  views := #[.list 0 ((List.range 7).map fun i => .node (integerAt i))]

def sevenBounds : Bounds Node where
  start := some (.unary .minus (integerAt 20) ⟨1, 3⟩)
  stop := some (integerAt 4)
  step := some (integerAt 2)
  span := ⟨0, ⟨1, 2⟩, ⟨1, 9⟩⟩

theorem forward_slice_seven :
    let m : Machine := ⟨answerWithin 2⟩
    ∃ middle items left later,
      (readBounds m 0 sevenBounds).run emptyWorld sevenStore =
        (.ok (2, some (-20), some 4), middle) ∧
      (([0, 2] : List Nat).mapM (element m 0)).run emptyWorld middle = (.ok items, left) ∧
      (sliced m 0 0 sevenBounds).run emptyWorld sevenStore =
        (.ok (.listView left.views.size), (left.addView (.list 0 (items.map .value))).2) ∧
      left.view 0 = .list 0 later ∧
      items.map .value = standardSlice later (some (-20)) (some 4) 2 := by
  intro m
  have read : (readBounds m 0 sevenBounds).run emptyWorld sevenStore =
      (.ok (2, some (-20), some 4), sevenStore.fresh.2) := rfl
  have evaluated : (([0, 2] : List Nat).mapM (element m 0)).run emptyWorld sevenStore.fresh.2 =
      (.ok _, _) := rfl
  have isList : sevenStore.view 0 = .list 0 _ := rfl
  obtain ⟨-, -, selects⟩ := (forward_slice 2 isList (by decide)).2 (by decide) (some (-20)) (some 4)
    _ read
  obtain ⟨ran, later, isLater, -, -, standard⟩ := selects _ _ evaluated
  exact ⟨_, _, _, later, read, evaluated, ran, isLater, standard (by decide)⟩

/-! ### Backwards -/

/-- A slice backwards whose start lies before its stop gives a new list of the evaluated elements
down to its start, in steps, from one place behind the stop on. If the stop is left out, they are
those of the range between the bounds from its other end. -/
theorem backward_slice (depth : Nat) (isList : s.view id = .list owner slots) (backward : step ≤ -1)
    {start stop : Option Int} {middle : Store}
    (read : (readBounds ⟨answerWithin depth⟩ evaluator bounds).run environment s =
      (.ok (step, start, stop), middle))
    (ordered : firstPlace slots.length start < lastPlace slots.length stop) :
    let m : Machine := ⟨answerWithin depth⟩
    let size := slots.length
    let selected := (descending (behindPlace size stop) (firstPlace size start) step.natAbs).filter
      (· < size)
    selected.Pairwise (· > ·) ∧
    (stop = none →
      selected = descending (lastPlace size stop - 1) (firstPlace size start) step.natAbs) ∧
    ∀ items left, (selected.mapM (element m id)).run environment middle = (.ok items, left) →
      (sliced m evaluator id bounds).run environment s =
        (.ok (.listView left.views.size), (left.addView (.list owner (items.map .value))).2) ∧
      ∃ later, left.view id = .list owner later ∧ later.length = size ∧
        items.map .value = selected.filterMap (later[·]?) := by
  intro m size selected
  have nonempty : slots ≠ [] := by
    have below := lastPlace_le slots.length stop
    exact List.length_pos_iff.mp (by omega)
  refine ⟨List.Pairwise.filter _ (pairwise_descending _ _ _), ?_, ?_⟩
  · rintro rfl
    apply List.filter_eq_self.mpr
    intro p among
    have inside := (mem_descending.mp among).2.1
    simp only [behindPlace, firstPlace, lastPlace] at inside ordered
    exact decide_eq_true (by omega)
  · intro items left evaluated
    exact run_sliced_of_elements (evolving_answerWithin depth) isList nonempty (by omega) read
      (slicePositions_backward ordered backward) evaluated

def backwardBounds : Bounds Node where
  start := some (integerAt 0)
  stop := some (integerAt 2)
  step := some (.unary .minus (integerAt 2) ⟨1, 7⟩)
  span := ⟨0, ⟨1, 2⟩, ⟨1, 8⟩⟩

theorem backward_slice_seven :
    let m : Machine := ⟨answerWithin 2⟩
    ∃ middle items left later,
      (readBounds m 0 backwardBounds).run emptyWorld sevenStore =
        (.ok (-2, some 0, some 2), middle) ∧
      (([3, 1] : List Nat).mapM (element m 0)).run emptyWorld middle = (.ok items, left) ∧
      (sliced m 0 0 backwardBounds).run emptyWorld sevenStore =
        (.ok (.listView left.views.size), (left.addView (.list 0 (items.map .value))).2) ∧
      left.view 0 = .list 0 later ∧
      items.map .value = [3, 1].filterMap (later[·]?) := by
  intro m
  have read : (readBounds m 0 backwardBounds).run emptyWorld sevenStore =
      (.ok (-2, some 0, some 2), sevenStore.fresh.2) := rfl
  have evaluated : (([3, 1] : List Nat).mapM (element m 0)).run emptyWorld
      sevenStore.fresh.2 = (.ok _, _) := rfl
  have isList : sevenStore.view 0 = .list 0 _ := rfl
  obtain ⟨-, -, selects⟩ := backward_slice 2 isList (by decide) read (by decide)
  obtain ⟨ran, later, isLater, -, holds⟩ := selects _ _ evaluated
  exact ⟨_, _, _, later, read, evaluated, ran, isLater, holds⟩

/-- The integers of a list. -/
def integers? : Except Failure Value → Option (List Int)
  | .ok (.list items _) => items.mapM fun
    | .number (.int n) _ => some n
    | _ => none
  | _ => none

def sevenText : Text.Decoded := ⟨"l: [0, 1, 2, 3, 4, 5, 6]".toList, none⟩

def sevenLoaded : Store := ((opened false sevenText none).run emptyWorld {}).2

/-- Backwards a slice with a stop goes beyond it, and starts elsewhere than without one even if the
stop is the end of the list. -/
theorem backward_slice_leaves_range :
    integers? ((Document.get 0 "l[0:3:-1]").run emptyWorld sevenLoaded).1 = some [4, 3, 2, 1, 0] ∧
      integers? ((Document.get 0 "l[0:7:-3]").run emptyWorld sevenLoaded).1 = some [5, 2] ∧
      integers? ((Document.get 0 "l[::-3]").run emptyWorld sevenLoaded).1 = some [6, 3, 0] := by
  decide +kernel

end LazyConfig.Slice
