import LazyConfig.Proofs.Container.Plain
import LazyConfig.Proofs.Container.Stands

/-!
# Materializing views of plain values

What stands for a plain value materializes to it again, up to the marks of its lists and mappings,
and nothing but serial numbers is taken for that. The elements of a list that have been evaluated
are materialized as they are.
-/

namespace LazyConfig

theorem Store.Keeps.numbered (s : Store) (serial : Nat) : s.Keeps { s with serial } := of_views rfl

namespace Evaluation

open Eval
open Value (bare bareItems bareEntries isPlain itemsPlain entriesPlain height itemsHeight
  entriesHeight)

variable {environment : Environment}

/-! ### Lists whose elements have been evaluated -/

/-- The elements of a list view, each materialized before the next is evaluated. -/
def plainItems (m : Machine) (id : ViewId) : Eval (List Value) := do
  let count := (← slots id).length
  (List.range count).mapM fun index => do m.materialize (← iterating (element m id index))

theorem asList_eq (m : Machine) (id : ViewId) : asList m id = plainItems m id >>= newList := by
  simp only [asList, plainItems, bind_assoc]

section

variable {m : Machine} {s : Store} {id : ViewId}

/-- An element that has been evaluated is read off its slot. -/
theorem run_element_of_value? {index : Nat} {v : Value}
    (held : (s.view id).value? index = some v) :
    (element m id index).run environment s = (.ok v, s) := by
  have isSlot : (s.view id).slots[index]? = some (.value v) := by
    cases isView : s.view id with
    | list owner slots => exact View.value?_list_eq_some.mp (isView ▸ held)
    | mapping owner entries =>
      rw [isView] at held
      cases held
  -- the slot is filled again with the value it holds
  have same : s.fill id index v = s := by
    rw [Store.fill, View.fill_of_value? held, Store.setView_view]
  rw [element, run_bind, run_viewSlots]
  dsimp only
  rw [isSlot]
  dsimp only
  rw [run_bind, run_viewOwner]
  dsimp only
  rw [slotValue, run_bind, run_pure]
  dsimp only
  rw [run_bind, run_fill, same]
  rfl

theorem run_iterating_element_of_value? {index : Nat} {v : Value}
    (held : (s.view id).value? index = some v) :
    (iterating (element m id index)).run environment s = (.ok v, s) := by
  rw [run_iterating, run_element_of_value? held]

/-- Elements that have been evaluated are materialized one after the other. -/
theorem run_plain_of_values (asked : ∀ request, (m.ask request).Evolving) {indices : List Nat}
    {values : List Value}
    (held : List.Forall₂ (fun index v => (s.view id).value? index = some v) indices values) :
    (indices.mapM fun index => do m.materialize (← iterating (element m id index))).run
        environment s = (values.mapM m.materialize).run environment s := by
  induction indices generalizing s values with
  | nil =>
    cases held
    rfl
  | cons index indices ih =>
    cases held with
    | @cons _ v _ values first rest =>
      rw [List.mapM_cons, List.mapM_cons, bind_assoc, run_bind,
        run_iterating_element_of_value? first]
      dsimp only
      rw [run_bind, run_bind]
      rcases ran : (m.materialize v).run environment s with ⟨failure | plain, middle⟩
      · rfl
      · -- the other elements are still in their slots
        have keeps : s.Keeps middle := (asked _).keeps ran
        dsimp only
        rw [run_bind, run_bind, ih (rest.imp fun _ _ held => keeps.value? held)]

theorem run_plainItems_of_values (asked : ∀ request, (m.ask request).Evolving)
    {values : List Value}
    (held : List.Forall₂ (fun index v => (s.view id).value? index = some v)
      (List.range (s.view id).slots.length) values) :
    (plainItems m id).run environment s = (values.mapM m.materialize).run environment s := by
  rw [plainItems, run_bind, run_viewSlots]
  exact run_plain_of_values asked held

theorem held_of_values {owner : DocumentId} {values : List Value}
    (isView : s.view id = .list owner (values.map .value)) :
    List.Forall₂ (fun index v => (s.view id).value? index = some v)
      (List.range (s.view id).slots.length) values := by
  rw [isView, View.slots, List.length_map]
  refine List.forall₂_iff_get.mpr ⟨List.length_range, fun index inRange inside => ?_⟩
  rw [View.value?_list_eq_some]
  simp

theorem run_asDict_of_values {owner : DocumentId} {values : List (String × Value)}
    (isView : s.view id = .mapping owner (values.map fun entry => (entry.1, .value entry.2))) :
    (asDict m id).run environment s =
      ((values.mapM fun entry => do return (entry.1, ← m.materialize entry.2)) >>= newDict).run
        environment s := by
  rw [asDict, run_bind, run_viewOwner]
  dsimp only
  rw [run_bind, run_entries isView]
  dsimp only
  rw [List.mapM_map]
  rfl

end

/-! ### Materializing -/

/-- A result that is the value but for the marks of copies. -/
def GivesBack (environment : Environment) (s : Store) (e : Eval Value) (v : Value) : Prop :=
  Numbers environment s e fun result _ => result.bare = v.bare

mutual

theorem givesBack_materialize : ∀ (v : Value) {w : Value} {s : Store} {depth : Nat},
    v.isPlain = true → v.height ≤ depth → Stands s w v →
    GivesBack environment s ((⟨answerWithin depth⟩ : Machine).materialize w) v
  | .list items mark, w, s, depth, plain, deep, stands => by
    rw [isPlain] at plain
    rw [height] at deep
    rw [Stands] at stands
    obtain ⟨id, owner, values, rfl, inside, isView, parts⟩ := stands
    obtain ⟨depth, rfl⟩ : ∃ less, depth = less + 1 := ⟨depth - 1, by omega⟩
    -- a machine of this depth materializes the parts with one that is less deep
    have asked := evolving_answerWithin depth
    change GivesBack environment s (asList ⟨answerWithin depth⟩ id) _
    have evaluated : Numbers environment s (plainItems ⟨answerWithin depth⟩ id)
        fun results _ => bareItems results = bareItems items := by
      rw [Numbers, run_plainItems_of_values asked (held_of_values isView)]
      exact numbers_materializeItems items plain (by omega) parts
    rw [GivesBack, asList_eq]
    refine evaluated.bind fun results serial _ isSame => ?_
    exact Numbers.freshMark.bind fun own later _ _ => .pure (by rw [bare, bare, isSame])
  | .dict entries mark, w, s, depth, plain, deep, stands => by
    rw [isPlain] at plain
    rw [height] at deep
    rw [Stands] at stands
    obtain ⟨id, owner, values, rfl, inside, isView, parts⟩ := stands
    obtain ⟨depth, rfl⟩ : ∃ less, depth = less + 1 := ⟨depth - 1, by omega⟩
    change GivesBack environment s (asDict ⟨answerWithin depth⟩ id) _
    rw [GivesBack, Numbers, run_asDict_of_values isView]
    refine (numbers_materializeEntries entries plain
      (show entriesHeight entries ≤ depth by omega) parts).bind fun results serial _ isSame => ?_
    exact Numbers.freshMark.bind fun own later _ _ => .pure (by rw [bare, bare, isSame])
  | .null, w, s, depth, _, deep, stands | .absent, w, s, depth, _, deep, stands
  | .bool _, w, s, depth, _, deep, stands | .number _ _, w, s, depth, _, deep, stands
  | .text _ _, w, s, depth, _, deep, stands | .date _ _, w, s, depth, _, deep, stands
  | .dateTime _ _, w, s, depth, _, deep, stands => by
    obtain ⟨depth, rfl⟩ : ∃ less, depth = less + 1 := ⟨depth - 1, by simp [height] at deep; omega⟩
    rw [Stands] at stands
    · subst stands
      exact Numbers.pure rfl
    all_goals simp
  | .object _ _ _, _, _, _, plain, _, _ | .function _ _ _ _, _, _, _, plain, _, _
  | .listView _, _, _, _, plain, _, _ | .mappingView _, _, _, _, plain, _, _
  | .document _, _, _, _, plain, _, _ => by
    simp [isPlain] at plain

theorem numbers_materializeItems : ∀ (items : List Value) {values : List Value} {s : Store}
    {depth : Nat}, itemsPlain items = true → itemsHeight items ≤ depth →
    ItemsStand s values items →
    Numbers environment s (values.mapM (⟨answerWithin depth⟩ : Machine).materialize)
      fun results _ => bareItems results = bareItems items
  | [], values, s, depth, _, _, stands => by
    rw [ItemsStand] at stands
    subst stands
    exact .pure rfl
  | v :: items, values, s, depth, plain, deep, stands => by
    rw [itemsPlain, Bool.and_eq_true] at plain
    rw [itemsHeight] at deep
    rw [ItemsStand] at stands
    obtain ⟨w, rest, rfl, first, others⟩ := stands
    rw [List.mapM_cons]
    refine (givesBack_materialize v plain.1 (by omega) first).bind fun one serial _ isOne => ?_
    refine (numbers_materializeItems items plain.2
      (show itemsHeight items ≤ depth by omega)
      (others.later (.numbered s serial))).bind fun more later _ isMore => ?_
    refine .pure ?_
    rw [bareItems, bareItems, isOne, isMore]

theorem numbers_materializeEntries : ∀ (entries : List (String × Value))
    {values : List (String × Value)} {s : Store} {depth : Nat}, entriesPlain entries = true →
    entriesHeight entries ≤ depth → EntriesStand s values entries →
    Numbers environment s (values.mapM fun entry => do
        return (entry.1, ← (⟨answerWithin depth⟩ : Machine).materialize entry.2))
      fun results _ => bareEntries results = bareEntries entries
  | [], values, s, depth, _, _, stands => by
    rw [EntriesStand] at stands
    subst stands
    exact .pure rfl
  | (key, v) :: entries, values, s, depth, plain, deep, stands => by
    rw [entriesPlain, Bool.and_eq_true] at plain
    rw [entriesHeight] at deep
    rw [EntriesStand] at stands
    obtain ⟨w, rest, rfl, first, others⟩ := stands
    rw [List.mapM_cons, bind_assoc]
    refine (givesBack_materialize v plain.1 (by omega) first).bind fun one serial _ isOne => ?_
    rw [pure_bind]
    refine (numbers_materializeEntries entries plain.2
      (show entriesHeight entries ≤ depth by omega)
      (others.later (.numbered s serial))).bind fun more later _ isMore => ?_
    refine .pure ?_
    rw [bareEntries, bareEntries, isOne, isMore]

end

end Evaluation

end LazyConfig
