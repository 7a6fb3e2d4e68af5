import LazyConfig.Evaluation.Describe
import Mathlib.Data.Finset.Card
import Mathlib.Data.Finset.Range

/-!
# Showing values

Messages show a value without changing anything. Since a view is not shown again inside itself, this
always ends, and only a number of too many digits keeps a value from being shown.
-/

namespace LazyConfig.Evaluation

open Eval

/-- The evaluation changes nothing and can fail only on a number that is too long to be shown. -/
def Shows {α : Type} (environment : Environment) (store : Store) (e : Eval α) : Prop :=
  (∃ a, e.run environment store = (.ok a, store)) ∨
    e.run environment store = (.error (.host .tooManyDigits), store)

variable {α β : Type} {environment : Environment} {store : Store}

theorem shows_pure (a : α) : Shows environment store (pure a) := .inl ⟨a, rfl⟩

theorem Shows.bind {e : Eval α} {f : α → Eval β} (first : Shows environment store e)
    (next : ∀ a, Shows environment store (f a)) : Shows environment store (e >>= f) := by
  rcases first with ⟨a, ran⟩ | ran
  · simpa only [Shows, run_bind, ran] using next a
  · exact .inr (by simp only [run_bind, ran])

theorem shows_get {f : Store → Eval β} (next : Shows environment store (f store)) :
    Shows environment store (get >>= f) := by
  simpa only [Shows, run_bind, run_get] using next

theorem shows_mapM {f : α → Eval β} {items : List α}
    (each : ∀ a ∈ items, Shows environment store (f a)) :
    Shows environment store (items.mapM f) := by
  induction items with
  | nil => exact shows_pure []
  | cons a items ih =>
    rw [List.mapM_cons]
    refine (each a (by simp)).bind fun b => ?_
    exact (ih fun a among => each a (by simp [among])).bind fun bs => shows_pure (b :: bs)

theorem shows_shown (text : Option String) : Shows environment store (shown text) := by
  cases text with
  | none => exact .inr rfl
  | some text => exact shows_pure text

theorem shows_scalarText (v : Value) : Shows environment store (scalarText v) := by
  cases v
  case number n mark => exact shows_shown n.text?
  case document id => exact shows_get (shows_pure _)
  all_goals exact shows_pure _

mutual

theorem shows_describeWith {describeView : ViewId → Eval String}
    (views : ∀ id, Shows environment store (describeView id)) :
    ∀ v : Value, Shows environment store (describeWith describeView v)
  | .list items _ => by
    rw [describeWith]
    exact (shows_describeItems views items).bind fun _ => shows_pure _
  | .dict entries _ => by
    rw [describeWith]
    exact (shows_describeEntries views entries).bind fun _ => shows_pure _
  | .listView id => by
    rw [describeWith]
    exact views id
  | .mappingView id => by
    rw [describeWith]
    exact views id
  | .null | .absent | .bool _ | .number _ _ | .text _ _ | .date _ _ | .dateTime _ _
  | .object _ _ _ | .function _ _ _ _ | .document _ => by
    simp only [describeWith]
    exact shows_scalarText _

theorem shows_describeItems {describeView : ViewId → Eval String}
    (views : ∀ id, Shows environment store (describeView id)) :
    ∀ items : List Value, Shows environment store (describeItems describeView items)
  | [] => shows_pure []
  | v :: items => by
    rw [describeItems]
    exact (shows_describeWith views v).bind fun _ =>
      (shows_describeItems views items).bind fun _ => shows_pure _

theorem shows_describeEntries {describeView : ViewId → Eval String}
    (views : ∀ id, Shows environment store (describeView id)) :
    ∀ entries : List (String × Value),
      Shows environment store (describeEntries describeView entries)
  | [] => shows_pure []
  | (_, v) :: entries => by
    rw [describeEntries]
    exact (shows_describeWith views v).bind fun _ =>
      (shows_describeEntries views entries).bind fun _ => shows_pure _

end

theorem shows_describeSlot {describeView : ViewId → Eval String}
    (views : ∀ id, Shows environment store (describeView id)) (slot : Slot) :
    Shows environment store (describeSlot describeView slot) := by
  cases slot with
  | node node => exact shows_shown node.describe?
  | value v => exact shows_describeWith views v

theorem length_le_of_nodup {bound : Nat} {around : List ViewId} (distinct : around.Nodup)
    (known : ∀ id ∈ around, id < bound) : around.length ≤ bound := by
  rw [← List.toFinset_card_of_nodup distinct, ← Finset.card_range bound]
  exact Finset.card_le_card fun id among => by
    simpa using known id (List.mem_toFinset.mp among)

/-- The views around one another are distinct, so that the depth suffices. -/
theorem shows_describeView {depth : Nat} {around : List ViewId} (id : ViewId)
    (distinct : around.Nodup) (known : ∀ id ∈ around, id < store.views.size)
    (enough : store.views.size < depth + around.length) :
    Shows environment store (describeView depth around id) := by
  induction depth generalizing around id with
  | zero =>
    have := length_le_of_nodup distinct known
    omega
  | succ depth ih =>
    unfold describeView
    refine shows_get ?_
    by_cases inside : around.contains id
    · cases store.view id <;> simp only [inside, if_true] <;> exact shows_pure _
    · have fresh : id ∉ around := by simpa using inside
      by_cases present : id < store.views.size
      · have views (other : ViewId) :
            Shows environment store (describeView depth (id :: around) other) :=
          ih other (List.nodup_cons.mpr ⟨fresh, distinct⟩)
            (List.forall_mem_cons.mpr ⟨present, known⟩) (by simp only [List.length_cons]; omega)
        have slots (slot : Slot) := shows_describeSlot views slot
        cases store.view id with
        | list owner items =>
          simp only [inside]
          exact (shows_mapM fun slot _ => slots slot).bind fun _ => shows_pure _
        | mapping owner entries =>
          simp only [inside]
          exact (shows_mapM fun entry _ => (slots entry.2).bind fun _ => shows_pure _).bind
            fun _ => shows_pure _
      · have none : store.view id = default := by
          simp [Store.view, Array.getD, present]
        rw [none]
        simp only [default, inside]
        exact shows_pure _

/-- A value can be shown, but for a number of too many digits in it. -/
theorem shows_describe (v : Value) : Shows environment store (describe v) := by
  refine shows_get (shows_describeWith (fun id => ?_) v)
  exact shows_describeView id List.nodup_nil (by simp) (by simp)

end LazyConfig.Evaluation
