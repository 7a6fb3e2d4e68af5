import LazyConfig.Document.Store
import LazyConfig.Value.Compare
import LazyConfig.Value.Merge
import LazyConfig.World.Basic
import Mathlib.Logic.Function.Basic
import Mathlib.Order.Basic

/-!
# Relocated values

The documents and views of a store have numbers, and another store can hold the same ones at other
numbers. A value is relocated by giving every document and view in it its other number. Values are
compared and ordered in the same way when they are relocated.
-/

namespace LazyConfig

/-- Where the documents and views of a store are found in another one. -/
structure Relocation where
  document : DocumentId → DocumentId
  view : ViewId → ViewId
  document_injective : Function.Injective document
  view_injective : Function.Injective view

/-- So many documents and views are there. -/
structure Scope where
  documents : Nat
  views : Nat

instance : Preorder Scope where
  le scope wider := scope.documents ≤ wider.documents ∧ scope.views ≤ wider.views
  le_refl _ := ⟨Nat.le_refl _, Nat.le_refl _⟩
  le_trans _ _ _ first second :=
    ⟨Nat.le_trans first.1 second.1, Nat.le_trans first.2 second.2⟩

namespace Value

variable (r : Relocation) (scope : Scope)

mutual

/-- The value with the documents and views in it at their other numbers. -/
def relocate : Value → Value
  | list items mark => list (relocateItems items) mark
  | dict entries mark => dict (relocateEntries entries) mark
  | object name attributes mark => object name (relocateEntries attributes) mark
  | function name parameters result mark => function name parameters (relocate result) mark
  | listView id => listView (r.view id)
  | mappingView id => mappingView (r.view id)
  | document id => document (r.document id)
  | null => null
  | absent => absent
  | bool b => bool b
  | number n mark => number n mark
  | text s mark => text s mark
  | date d mark => date d mark
  | dateTime t mark => dateTime t mark

def relocateItems : List Value → List Value
  | [] => []
  | v :: items => relocate v :: relocateItems items

def relocateEntries : List (String × Value) → List (String × Value)
  | [] => []
  | (key, v) :: entries => (key, relocate v) :: relocateEntries entries

end

mutual

/-- The documents and views in the value are among those that are there. -/
def Within : Value → Prop
  | list items _ => ItemsWithin items
  | dict entries _ => EntriesWithin entries
  | object _ attributes _ => EntriesWithin attributes
  | function _ _ result _ => Within result
  | listView id => id < scope.views
  | mappingView id => id < scope.views
  | document id => id < scope.documents
  | _ => True

def ItemsWithin : List Value → Prop
  | [] => True
  | v :: items => Within v ∧ ItemsWithin items

def EntriesWithin : List (String × Value) → Prop
  | [] => True
  | (_, v) :: entries => Within v ∧ EntriesWithin entries

end

theorem relocateItems_eq (items : List Value) : relocateItems r items = items.map (relocate r) := by
  induction items with
  | nil => rfl
  | cons v items ih => rw [relocateItems, ih, List.map_cons]

theorem relocateEntries_eq (entries : List (String × Value)) :
    relocateEntries r entries = entries.map fun entry => (entry.1, relocate r entry.2) := by
  induction entries with
  | nil => rfl
  | cons entry entries ih => rw [relocateEntries, ih, List.map_cons]

theorem itemsWithin_iff {items : List Value} :
    ItemsWithin scope items ↔ ∀ v ∈ items, v.Within scope := by
  induction items with
  | nil => simp [ItemsWithin]
  | cons v items ih => simp [ItemsWithin, ih]

theorem entriesWithin_iff {entries : List (String × Value)} :
    EntriesWithin scope entries ↔ ∀ entry ∈ entries, entry.2.Within scope := by
  induction entries with
  | nil => simp [EntriesWithin]
  | cons entry entries ih => simp [EntriesWithin, ih]

variable {r} {scope}

mutual

theorem Within.mono {wider : Scope} (le : scope ≤ wider) :
    ∀ {v : Value}, v.Within scope → v.Within wider
  | list items _, within => by
    rw [Within] at within ⊢
    exact ItemsWithin.mono le within
  | dict entries _, within => by
    rw [Within] at within ⊢
    exact EntriesWithin.mono le within
  | object _ attributes _, within => by
    rw [Within] at within ⊢
    exact EntriesWithin.mono le within
  | function _ _ result _, within => by
    rw [Within] at within ⊢
    exact Within.mono le within
  | listView _, within => Nat.lt_of_lt_of_le within le.2
  | mappingView _, within => Nat.lt_of_lt_of_le within le.2
  | document _, within => Nat.lt_of_lt_of_le within le.1
  | null, _ | absent, _ | bool _, _ | number _ _, _ | text _ _, _ | date _ _, _
  | dateTime _ _, _ => trivial

theorem ItemsWithin.mono {wider : Scope} (le : scope ≤ wider) :
    ∀ {items : List Value}, ItemsWithin scope items → ItemsWithin wider items
  | [], _ => trivial
  | _ :: _, within => ⟨within.1.mono le, ItemsWithin.mono le within.2⟩

theorem EntriesWithin.mono {wider : Scope} (le : scope ≤ wider) :
    ∀ {entries : List (String × Value)}, EntriesWithin scope entries → EntriesWithin wider entries
  | [], _ => trivial
  | (_, _) :: _, within => ⟨within.1.mono le, EntriesWithin.mono le within.2⟩

end

/-- A value that stays the same in every store: it has no documents and views in it. -/
def IsOutside (v : Value) : Prop := v.Within ⟨0, 0⟩

theorem IsOutside.within {v : Value} (outside : v.IsOutside) (scope : Scope) : v.Within scope :=
  Within.mono ⟨Nat.zero_le _, Nat.zero_le _⟩ outside

mutual

theorem relocate_of_isOutside : ∀ {v : Value}, v.IsOutside → v.relocate r = v
  | list items _, outside => by
    rw [IsOutside, Within] at outside
    rw [relocate, relocateItems_of_isOutside outside]
  | dict entries _, outside => by
    rw [IsOutside, Within] at outside
    rw [relocate, relocateEntries_of_isOutside outside]
  | object _ attributes _, outside => by
    rw [IsOutside, Within] at outside
    rw [relocate, relocateEntries_of_isOutside outside]
  | function _ _ result _, outside => by
    rw [IsOutside, Within] at outside
    rw [relocate, relocate_of_isOutside outside]
  | listView _, outside => absurd outside (Nat.not_lt_zero _)
  | mappingView _, outside => absurd outside (Nat.not_lt_zero _)
  | document _, outside => absurd outside (Nat.not_lt_zero _)
  | null, _ | absent, _ | bool _, _ | number _ _, _ | text _ _, _ | date _ _, _
  | dateTime _ _, _ => rfl

theorem relocateItems_of_isOutside :
    ∀ {items : List Value}, ItemsWithin ⟨0, 0⟩ items → relocateItems r items = items
  | [], _ => rfl
  | _ :: _, outside => by
    rw [relocateItems, relocate_of_isOutside outside.1, relocateItems_of_isOutside outside.2]

theorem relocateEntries_of_isOutside :
    ∀ {entries : List (String × Value)}, EntriesWithin ⟨0, 0⟩ entries →
      relocateEntries r entries = entries
  | [], _ => rfl
  | (_, _) :: _, outside => by
    rw [relocateEntries, relocate_of_isOutside outside.1, relocateEntries_of_isOutside outside.2]

end

theorem isOutside_ofLiteral (span : Span) (literal : Token.Literal) :
    (ofLiteral span literal).IsOutside := by
  cases literal <;> trivial

/-! ### Comparing -/

@[simp] theorem typeName_relocate (v : Value) : (v.relocate r).typeName = v.typeName := by
  cases v with
  | number n mark => cases n <;> rfl
  | _ => rfl

@[simp] theorem mark?_relocate (v : Value) : (v.relocate r).mark? = v.mark? := by
  cases v <;> rfl

@[simp] theorem asNumber?_relocate (v : Value) : (v.relocate r).asNumber? = v.asNumber? := by
  cases v <;> rfl

@[simp] theorem same_relocate (v w : Value) : (v.relocate r).same (w.relocate r) = v.same w := by
  cases v <;> cases w <;>
    first
      | rfl
      | simp [relocate, same, mark?, r.document_injective.eq_iff, r.view_injective.eq_iff]


theorem lookup_relocateEntries (key : String) (entries : List (String × Value)) :
    (relocateEntries r entries).lookup key = (entries.lookup key).map (relocate r) := by
  induction entries with
  | nil => rfl
  | cons entry entries ih =>
    obtain ⟨k, v⟩ := entry
    rw [relocateEntries, List.lookup_cons, List.lookup_cons, ih]
    cases key == k <;> rfl

theorem length_relocateEntries (entries : List (String × Value)) :
    (relocateEntries r entries).length = entries.length := by
  rw [relocateEntries_eq, List.length_map]

mutual

theorem equal_relocate : ∀ v w : Value, (v.relocate r).equal (w.relocate r) = v.equal w
  | list items _, w => by
    cases w with
    | list others mark =>
      simp only [relocate, equal]
      exact equalItems_relocate items others
    | _ => rfl
  | dict entries _, w => by
    cases w with
    | dict others mark =>
      simp only [relocate, equal, length_relocateEntries]
      rw [equalEntries_relocate entries others]
    | _ => rfl
  | bool b, w | number n _, w => by simp only [relocate, equal, asNumber?_relocate]
  | null, w | absent, w | text s _, w | date d _, w | dateTime t _, w => by cases w <;> rfl
  -- other values are compared as objects
  | object name attributes mark, w => same_relocate (object name attributes mark) w
  | function name parameters result mark, w => same_relocate (function name parameters result mark) w
  | listView id, w => same_relocate (listView id) w
  | mappingView id, w => same_relocate (mappingView id) w
  | document id, w => same_relocate (document id) w

theorem equalItems_relocate : ∀ items others : List Value,
    equalItems (relocateItems r items) (relocateItems r others) = equalItems items others
  | [], [] => rfl
  | [], _ :: _ => rfl
  | v :: items, [] => rfl
  | v :: items, w :: others => by
    simp only [relocateItems, equalItems, same_relocate, equal_relocate v w,
      equalItems_relocate items others]

theorem equalEntries_relocate : ∀ entries others : List (String × Value),
    equalEntries (relocateEntries r entries) (relocateEntries r others) =
      equalEntries entries others
  | [], _ => rfl
  | (key, v) :: entries, others => by
    rw [relocateEntries, equalEntries, equalEntries, lookup_relocateEntries]
    cases others.lookup key with
    | none => rfl
    | some w =>
      simp only [Option.map_some, same_relocate, equal_relocate v w,
        equalEntries_relocate entries others]

end

/-- The order of values that are no texts, dates or lists is that of the numbers that they are. -/
private def orderNumbers (op : OrderOp) (v w : Value) : Except OrderFault Bool :=
  match v.asNumber?.bind fun a => w.asNumber?.bind fun b => a.compare? b with
  | some (some o) => .ok (op.holds o)
  | some none => .ok false
  | none => .error (.types op v.typeName w.typeName)

private theorem orderNumbers_relocate (op : OrderOp) (v w : Value) :
    orderNumbers op (v.relocate r) (w.relocate r) = orderNumbers op v w := by
  simp only [orderNumbers, asNumber?_relocate, typeName_relocate]

mutual

theorem order_relocate (op : OrderOp) :
    ∀ v w : Value, order op (v.relocate r) (w.relocate r) = order op v w
  | list items _, w => by
    cases w with
    | list others mark =>
      simp only [relocate, order]
      exact orderItems_relocate op items others
    | number n mark => cases n <;> rfl
    | _ => rfl
  | text s _, w | date d _, w | dateTime t _, w => by
    cases w with
    | number n mark => cases n <;> rfl
    | _ => rfl
  | null, w => orderNumbers_relocate op null w
  | absent, w => orderNumbers_relocate op absent w
  | bool b, w => orderNumbers_relocate op (bool b) w
  | number n mark, w => orderNumbers_relocate op (number n mark) w
  | dict entries mark, w => orderNumbers_relocate op (dict entries mark) w
  | object name attributes mark, w => orderNumbers_relocate op (object name attributes mark) w
  | function name parameters result mark, w =>
    orderNumbers_relocate op (function name parameters result mark) w
  | listView id, w => orderNumbers_relocate op (listView id) w
  | mappingView id, w => orderNumbers_relocate op (mappingView id) w
  | document id, w => orderNumbers_relocate op (document id) w

theorem orderItems_relocate (op : OrderOp) : ∀ items others : List Value,
    orderItems op (relocateItems r items) (relocateItems r others) = orderItems op items others
  | [], [] => rfl
  | [], _ :: _ => rfl
  | v :: items, [] => rfl
  | v :: items, w :: others => by
    simp only [relocateItems, orderItems, same_relocate, equal_relocate v w,
      order_relocate op v w, orderItems_relocate op items others]

end

theorem elementOf_relocate (v : Value) (items : List Value) :
    (v.relocate r).elementOf (relocateItems r items) = v.elementOf items := by
  rw [relocateItems_eq]
  simp only [elementOf, List.any_map]
  refine congrArg _ (funext fun w => ?_)
  simp only [Function.comp, same_relocate, equal_relocate]

/-! ### Setting keys -/

theorem putEntry_relocate (key : String) (v : Value) (entries : List (String × Value)) :
    putEntry key (v.relocate r) (relocateEntries r entries) =
      relocateEntries r (putEntry key v entries) := by
  induction entries with
  | nil => rfl
  | cons entry entries ih =>
    obtain ⟨k, w⟩ := entry
    rw [relocateEntries, putEntry, putEntry, ih]
    split <;> rfl

theorem EntriesWithin.putEntry {key : String} {v : Value} {entries : List (String × Value)}
    (all : EntriesWithin scope entries) (within : v.Within scope) :
    EntriesWithin scope (putEntry key v entries) := by
  induction entries with
  | nil => exact ⟨within, trivial⟩
  | cons entry entries ih =>
    obtain ⟨k, w⟩ := entry
    rw [Value.putEntry]
    split
    · exact ⟨within, all.2⟩
    · exact ⟨all.1, ih all.2⟩

theorem EntriesWithin.lookup {key : String} {v : Value} {entries : List (String × Value)}
    (all : EntriesWithin scope entries) (found : entries.lookup key = some v) :
    v.Within scope := by
  induction entries with
  | nil => cases found
  | cons entry entries ih =>
    obtain ⟨k, w⟩ := entry
    rw [List.lookup_cons] at found
    split at found
    · cases found
      exact all.1
    · exact ih all.2 found

end Value

end LazyConfig
