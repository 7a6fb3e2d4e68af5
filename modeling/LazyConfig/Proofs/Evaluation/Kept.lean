import LazyConfig.Proofs.Evaluation.Evolution

/-!
# What evaluations keep

Views stay where they are. A mapping has the same entries forever, and a list the same number of
slots; what is evaluated later leaves the values that slots hold as they are. So the elements of a
list that have been evaluated can be read off its view at any later time.
-/

namespace LazyConfig

open Eval
open Evaluation

/-! ### Views -/

/-- What a view may have become later on. -/
inductive View.Keeps : View → View → Prop where
  | mapping (owner : DocumentId) (entries : List (String × Slot)) :
      Keeps (.mapping owner entries) (.mapping owner entries)
  | list (owner : DocumentId) {slots later : List Slot} (length : later.length = slots.length)
      (values : ∀ (index : Nat) (v : Value), slots[index]? = some (.value v) →
        later[index]? = some (.value v)) :
      Keeps (.list owner slots) (.list owner later)

namespace View.Keeps

variable {view middle later : View}

theorem refl (view : View) : view.Keeps view := by
  cases view with
  | list owner slots => exact .list owner rfl fun _ _ holds => holds
  | mapping owner entries => exact .mapping owner entries

theorem trans (first : view.Keeps middle) (second : middle.Keeps later) : view.Keeps later := by
  cases first with
  | mapping owner entries => exact second
  | list owner length values =>
    cases second with
    | list _ length' values' =>
      exact .list owner (length'.trans length) fun index v holds =>
        values' index v (values index v holds)

theorem owner_eq (keeps : view.Keeps later) : later.owner = view.owner := by
  cases keeps <;> rfl

theorem length_slots (keeps : view.Keeps later) : later.slots.length = view.slots.length := by
  cases keeps with
  | mapping => rfl
  | list owner length values => exact length

theorem value? (keeps : view.Keeps later) {index : Nat} {v : Value}
    (holds : view.value? index = some v) : later.value? index = some v := by
  cases keeps with
  | mapping => exact holds
  | list owner length values =>
    rw [View.value?_list_eq_some] at holds ⊢
    exact values index v holds

/-- Filling a slot that held no value at first. -/
theorem fill (keeps : view.Keeps later) {index : Nat} (v : Value)
    (unread : view.value? index = none) : view.Keeps (later.fill index v) := by
  cases keeps with
  | mapping owner entries => exact .mapping owner entries
  | list owner length values =>
    apply View.Keeps.list owner
    · rw [List.length_set]
      exact length
    · intro i w holds
      have differ : index ≠ i := by
        rintro rfl
        simp [View.value?, View.slots, holds] at unread
      rw [List.getElem?_set_ne differ]
      exact values i w holds

end View.Keeps

/-! ### Stores -/

/-- What a store may have become later on. -/
structure Store.Keeps (s left : Store) : Prop where
  size : s.views.size ≤ left.views.size
  views : ∀ id < s.views.size, (s.view id).Keeps (left.view id)

namespace Store.Keeps

variable {s middle left : Store}

theorem of_views (same : left.views = s.views) : s.Keeps left where
  size := by rw [same]
  views id inside := by
    rw [show left.view id = s.view id from congrArg (·.getD id default) same]
    exact .refl _

theorem refl (s : Store) : s.Keeps s := of_views rfl

theorem trans (first : s.Keeps middle) (second : middle.Keeps left) : s.Keeps left where
  size := first.size.trans second.size
  views id inside :=
    (first.views id inside).trans (second.views id (inside.trans_le first.size))

theorem addView (s : Store) (v : View) : s.Keeps (s.addView v).2 where
  size := by simp [Store.addView]
  views id inside := by
    rw [s.view_addView_of_lt v inside]
    exact .refl _

theorem fill (keeps : s.Keeps left) {id : ViewId} {index : Nat} (v : Value)
    (unread : (s.view id).value? index = none) : s.Keeps (left.fill id index v) where
  size := by
    rw [Store.fill, Store.setView, Array.size_setIfInBounds]
    exact keeps.size
  views other inside := by
    by_cases same : id = other
    · subst same
      rw [Store.fill, left.view_setView _ (inside.trans_le keeps.size)]
      exact (keeps.views id inside).fill v unread
    · rw [Store.fill, left.view_setView_of_ne _ same]
      exact keeps.views other inside

end Store.Keeps

/-- Whatever evaluations change, values that have been found stay where they are. -/
theorem Evolves.keeps {files : FileTree} {s left : Store} (evolves : Evolves files s left) :
    s.Keeps left := by
  -- what is marked while a reference is resolved or a text is converted stands in no view
  induction evolves with
  | refl s => exact .refl s
  | trans _ _ first second => exact first.trans second
  | counted | data | included => exact .of_views rfl
  | view s v => exact .addView s v
  | filled id index v unread inner ih => exact ih.fill v unread
  | resolving id p new inner ih | converting id text new inner ih => exact ⟨ih.size, ih.views⟩

theorem Eval.Evolving.keeps {α : Type} {e : Eval α} (evolving : e.Evolving)
    {environment : Environment} {s left : Store} {result : Except Failure α}
    (ran : e.run environment s = (result, left)) : s.Keeps left := by
  have evolves := evolving environment s
  rw [ran] at evolves
  exact evolves.keeps

/-! ### Elements -/

namespace Store

variable {s left : Store} {id : ViewId}

theorem view_of_size_le (beyond : s.views.size ≤ id) : s.view id = .list 0 [] := by
  simp only [Store.view, Array.getD_eq_getD_getElem?, Array.getElem?_eq_none beyond]
  rfl

/-- A view that has slots is there. -/
theorem lt_size_of_slot {index : Nat} (inside : index < (s.view id).slots.length) :
    id < s.views.size := by
  by_contra beyond
  rw [view_of_size_le (Nat.not_lt.mp beyond)] at inside
  exact Nat.not_lt_zero _ inside

theorem Keeps.value? (keeps : s.Keeps left) {index : Nat} {v : Value}
    (holds : (s.view id).value? index = some v) : (left.view id).value? index = some v := by
  by_cases inside : id < s.views.size
  · exact (keeps.views id inside).value? holds
  · rw [view_of_size_le (Nat.not_lt.mp inside)] at holds
    cases holds

/-- A list keeps its slots, and one that is not there has none to lose. -/
theorem Keeps.slot_lt (keeps : s.Keeps left) {index : Nat}
    (inside : index < (s.view id).slots.length) : index < (left.view id).slots.length := by
  rwa [(keeps.views id (lt_size_of_slot inside)).length_slots]

theorem value?_fill {index : Nat} (v : Value) (inside : index < (s.view id).slots.length) :
    ((s.fill id index v).view id).value? index = some v := by
  rw [fill, view_setView _ _ (lt_size_of_slot inside)]
  cases isView : s.view id with
  | list owner slots =>
    rw [isView] at inside
    rw [View.fill, View.value?_list_eq_some]
    exact List.getElem?_set_self inside
  | mapping owner entries =>
    rw [isView] at inside
    exact absurd inside (Nat.not_lt_zero _)

end Store

/-- Where a list holds values, they are what its slots give. -/
theorem View.filterMap_of_value? {owner : DocumentId} {slots : List Slot} {indices : List Nat}
    {items : List Value}
    (holds : List.Forall₂ (fun index v => (View.list owner slots).value? index = some v) indices
      items) :
    indices.filterMap (slots[·]?) = items.map .value := by
  induction holds with
  | nil => rfl
  | cons first _ ih =>
    rw [List.filterMap_cons, View.value?_list_eq_some.mp first, List.map_cons, ih]

namespace Evaluation

variable {m : Machine} {environment : Environment} {s left : Store} {id : ViewId}

/-- An element that has been evaluated stands in its slot. -/
theorem value?_of_run_element (asked : ∀ request, (m.ask request).Evolving) {index : Nat} {v : Value}
    (ran : (element m id index).run environment s = (.ok v, left)) :
    (left.view id).value? index = some v := by
  rw [element, run_bind, run_viewSlots] at ran
  dsimp only at ran
  cases isSlot : (s.view id).slots[index]? with
  | none =>
    rw [isSlot] at ran
    cases ran
  | some slot =>
    rw [isSlot] at ran
    dsimp only at ran
    rw [run_bind, run_viewOwner] at ran
    dsimp only at ran
    obtain ⟨w, middle, evaluated, ran⟩ := run_bind_ok ran
    rw [run_bind, run_fill] at ran
    cases ran
    apply Store.value?_fill
    have kept : s.Keeps middle := (evolving_slotValue asked _ slot).keeps evaluated
    exact kept.slot_lt (List.getElem?_eq_some_iff.mp isSlot).1

/-- Elements that have been evaluated one after the other all stand in their slots. -/
theorem value?_of_run_elements (asked : ∀ request, (m.ask request).Evolving) {indices : List Nat}
    {items : List Value}
    (ran : (indices.mapM (element m id)).run environment s = (.ok items, left)) :
    List.Forall₂ (fun index v => (left.view id).value? index = some v) indices items := by
  induction indices generalizing s items with
  | nil =>
    cases ran
    exact .nil
  | cons index indices ih =>
    rw [List.mapM_cons] at ran
    obtain ⟨v, middle, first, ran⟩ := run_bind_ok ran
    obtain ⟨others, behind, rest, ran⟩ := run_bind_ok ran
    cases ran
    have kept : middle.Keeps left := (Evolving.mapM (evolving_element asked id) indices).keeps rest
    exact .cons (kept.value? (value?_of_run_element asked first)) (ih rest)

end Evaluation

end LazyConfig
