import LazyConfig.Proofs.Evaluation.Kept
import LazyConfig.Proofs.Merge.Copy

/-!
# Views that stand for plain values

A plain list or mapping is put into views whose slots hold values only. Such views stand for the
plain value from then on, since later evaluations leave the values of slots as they are.
-/

namespace LazyConfig

/-- A list view that holds nothing but values stays as it is. -/
theorem View.Keeps.eq_of_values {later : View} {owner : DocumentId} {values : List Value}
    (keeps : (View.list owner (values.map .value)).Keeps later) :
    later = .list owner (values.map .value) := by
  cases keeps with
  | list _ length held =>
    congr 1
    refine List.ext_getElem? fun index => ?_
    by_cases inside : index < values.length
    · rw [held index values[index] (by simp [inside])]
      simp [inside]
    · have outside := Nat.not_lt.mp inside
      have beyond : (values.map Slot.value).length ≤ index := by rwa [List.length_map]
      rw [List.getElem?_eq_none beyond, List.getElem?_eq_none (length ▸ beyond)]

theorem View.Keeps.eq_of_mapping {later : View} {owner : DocumentId}
    {entries : List (String × Slot)} (keeps : (View.mapping owner entries).Keeps later) :
    later = .mapping owner entries := by
  cases keeps
  rfl

namespace Evaluation

open Eval
open Value (bare bareItems bareEntries)

mutual

/-- In the store, the first value stands for the second one, which is plain: for a list or a mapping
there is a view, and its slots hold what stands for the items or entries. -/
def Stands (s : Store) (w : Value) : Value → Prop
  | .list items _ => ∃ id owner values, w = .listView id ∧ id < s.views.size ∧
      s.view id = .list owner (values.map .value) ∧ ItemsStand s values items
  | .dict entries _ => ∃ id owner values, w = .mappingView id ∧ id < s.views.size ∧
      s.view id = .mapping owner (values.map fun entry => (entry.1, .value entry.2)) ∧
        EntriesStand s values entries
  | v => w = v

def ItemsStand (s : Store) (values : List Value) : List Value → Prop
  | [] => values = []
  | v :: items => ∃ w rest, values = w :: rest ∧ Stands s w v ∧ ItemsStand s rest items

def EntriesStand (s : Store) (values : List (String × Value)) : List (String × Value) → Prop
  | [] => values = []
  | (key, v) :: entries =>
    ∃ w rest, values = (key, w) :: rest ∧ Stands s w v ∧ EntriesStand s rest entries

end

section

variable {s later : Store}

mutual

/-- What stands for a value goes on standing for it. -/
theorem Stands.later (keeps : s.Keeps later) :
    ∀ {v w : Value}, Stands s w v → Stands later w v
  | .list items mark, w, stands => by
    rw [Stands] at stands ⊢
    obtain ⟨id, owner, values, rfl, inside, isView, parts⟩ := stands
    refine ⟨id, owner, values, rfl, Nat.lt_of_lt_of_le inside keeps.size, ?_, parts.later keeps⟩
    -- later evaluations fill empty slots only, and this view has none
    have kept := keeps.views id inside
    rw [isView] at kept
    exact kept.eq_of_values
  | .dict entries mark, w, stands => by
    rw [Stands] at stands ⊢
    obtain ⟨id, owner, values, rfl, inside, isView, parts⟩ := stands
    refine ⟨id, owner, values, rfl, Nat.lt_of_lt_of_le inside keeps.size, ?_, parts.later keeps⟩
    have kept := keeps.views id inside
    rw [isView] at kept
    exact kept.eq_of_mapping
  | .null, _, stands | .absent, _, stands | .bool _, _, stands | .number _ _, _, stands
  | .text _ _, _, stands | .date _ _, _, stands | .dateTime _ _, _, stands
  | .object _ _ _, _, stands | .function _ _ _ _, _, stands | .listView _, _, stands
  | .mappingView _, _, stands | .document _, _, stands => by
    simpa only [Stands] using stands

theorem ItemsStand.later (keeps : s.Keeps later) :
    ∀ {items values : List Value}, ItemsStand s values items → ItemsStand later values items
  | [], values, stands => by
    rw [ItemsStand] at stands ⊢
    exact stands
  | v :: items, values, stands => by
    rw [ItemsStand] at stands ⊢
    obtain ⟨w, rest, same, first, others⟩ := stands
    exact ⟨w, rest, same, first.later keeps, others.later keeps⟩

theorem EntriesStand.later (keeps : s.Keeps later) :
    ∀ {entries values : List (String × Value)}, EntriesStand s values entries →
      EntriesStand later values entries
  | [], values, stands => by
    rw [EntriesStand] at stands ⊢
    exact stands
  | (key, v) :: entries, values, stands => by
    rw [EntriesStand] at stands ⊢
    obtain ⟨w, rest, same, first, others⟩ := stands
    exact ⟨w, rest, same, first.later keeps, others.later keeps⟩

end

end

/-! ### Making views -/

section

variable {environment : Environment} {owner : DocumentId}

mutual

/-- The views that are made of a value stand for it. -/
theorem run_toView : ∀ (v : Value) (s : Store), ∃ w later,
    (toView owner v).run environment s = (.ok w, later) ∧ s.Keeps later ∧ Stands later w v
  | .list items mark, s => by
    obtain ⟨values, later, ran, keeps, stands⟩ := run_toSlots items s
    refine ⟨.listView later.views.size, (later.addView (.list owner (values.map .value))).2, ?_,
      keeps.trans (.addView later _), ?_⟩
    · rw [toView, run_bind, ran]
      rfl
    · rw [Stands]
      exact ⟨_, owner, values, rfl, by simp [Store.addView], Store.view_addView later _,
        stands.later (.addView later _)⟩
  | .dict entries mark, s => by
    obtain ⟨values, later, ran, keeps, stands⟩ := run_toEntrySlots entries s
    let view := View.mapping owner (values.map fun entry => (entry.1, .value entry.2))
    refine ⟨.mappingView later.views.size, (later.addView view).2, ?_,
      keeps.trans (.addView later view), ?_⟩
    · rw [toView, run_bind, ran]
      rfl
    · rw [Stands]
      exact ⟨_, owner, values, rfl, by simp [Store.addView], Store.view_addView later view,
        stands.later (.addView later view)⟩
  | .null, s | .absent, s | .bool _, s | .number _ _, s | .text _ _, s | .date _ _, s
  | .dateTime _ _, s | .object _ _ _, s | .function _ _ _ _, s | .listView _, s
  | .mappingView _, s | .document _, s => ⟨_, s, rfl, .refl s, rfl⟩

theorem run_toSlots : ∀ (items : List Value) (s : Store), ∃ values later,
    (toSlots owner items).run environment s = (.ok (values.map .value), later) ∧
      s.Keeps later ∧ ItemsStand later values items
  | [], s => ⟨[], s, rfl, .refl s, rfl⟩
  | v :: items, s => by
    obtain ⟨w, middle, ran, keeps, stands⟩ := run_toView v s
    obtain ⟨values, later, ranRest, keepsRest, rest⟩ := run_toSlots items middle
    refine ⟨w :: values, later, ?_, keeps.trans keepsRest, ?_⟩
    · rw [toSlots, run_bind, ran]
      dsimp only
      rw [run_bind, ranRest]
      rfl
    · rw [ItemsStand]
      exact ⟨w, values, rfl, stands.later keepsRest, rest⟩

theorem run_toEntrySlots : ∀ (entries : List (String × Value)) (s : Store), ∃ values later,
    (toEntrySlots owner entries).run environment s =
        (.ok (values.map fun entry => (entry.1, .value entry.2)), later) ∧
      s.Keeps later ∧ EntriesStand later values entries
  | [], s => ⟨[], s, rfl, .refl s, rfl⟩
  | (key, v) :: entries, s => by
    obtain ⟨w, middle, ran, keeps, stands⟩ := run_toView v s
    obtain ⟨values, later, ranRest, keepsRest, rest⟩ := run_toEntrySlots entries middle
    refine ⟨(key, w) :: values, later, ?_, keeps.trans keepsRest, ?_⟩
    · rw [toEntrySlots, run_bind, ran]
      dsimp only
      rw [run_bind, ranRest]
      rfl
    · rw [EntriesStand]
      exact ⟨w, values, rfl, stands.later keepsRest, rest⟩

end

end

end Evaluation

end LazyConfig
