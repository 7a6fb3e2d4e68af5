import LazyConfig.Proofs.Relocation.Describe

/-!
# Views in relocated stores

A request that is relocated has the relocated answer, if this holds of the requests that it makes.
Here this is shown for looking into views, for evaluating them in full, for making views, and for
copying and merging what stands in them.
-/

namespace LazyConfig

open Eval
open Evaluation

namespace Request

def relocate (r : Relocation) : Request → Request
  | evaluate id node => evaluate (r.document id) node
  | materialize v => materialize (v.relocate r)
  | lookup id key default? => lookup (r.document id) key (default?.map (Value.relocate r))

def Within (scope : Scope) : Request → Prop
  | evaluate id _ => id < scope.documents
  | materialize v => v.Within scope
  | lookup id _ default? => id < scope.documents ∧ ∀ v, default? = some v → v.Within scope

end Request

/-- A relocated request has the relocated answer. -/
def Machine.AsksAlike (r : Relocation) (m : Machine) : Prop :=
  ∀ {scope : Scope} {request : Request}, request.Within scope →
    Alike r (.value r) scope (m.ask request) (m.ask (request.relocate r))

namespace Evaluation

variable {r : Relocation} {scope : Scope}

/-! ### Making views -/

mutual

theorem alike_toView {owner : DocumentId} : ∀ {v : Value} {scope : Scope}, owner < scope.documents →
    v.Within scope → Alike r (.value r) scope (toView owner v) (toView (r.document owner) (v.relocate r))
  | .list items _, scope, inside, within => by
    rw [Value.Within] at within
    rw [Value.relocate, toView, toView]
    refine (alike_toSlots inside within).bind fun {wider} le slots slotsWithin => ?_
    have made : (View.list owner slots).Within wider :=
      ⟨Nat.lt_of_lt_of_le inside le.1, slotsWithin⟩
    exact (Alike.addView made).bind fun _ id present => @Alike.value _ _ (.listView id) present
  | .dict entries _, scope, inside, within => by
    rw [Value.Within] at within
    rw [Value.relocate, toView, toView]
    refine (alike_toEntrySlots inside within).bind fun {wider} le slots slotsWithin => ?_
    have made : (View.mapping owner slots).Within wider :=
      ⟨Nat.lt_of_lt_of_le inside le.1, slotsWithin⟩
    exact (Alike.addView made).bind fun _ id present => @Alike.value _ _ (.mappingView id) present
  | .object name attributes mark, _, _, within => by
    have alike := @Alike.value r _ _ within
    simpa only [Value.relocate, toView] using alike
  | .function _ _ _ _, _, _, within => by
    have alike := @Alike.value r _ _ within
    simpa only [Value.relocate, toView] using alike
  | .null, _, _, _ | .absent, _, _, _ | .bool _, _, _, _ | .number _ _, _, _, _ | .text _ _, _, _, _
  | .date _ _, _, _, _ | .dateTime _ _, _, _, _ => Alike.outside trivial
  | .listView _, _, _, within | .mappingView _, _, _, within | .document _, _, _, within =>
    Alike.value within

theorem alike_toSlots {owner : DocumentId} : ∀ {items : List Value} {scope : Scope},
    owner < scope.documents → Value.ItemsWithin scope items →
      Alike r (Cargo.slot r).list scope (toSlots owner items)
        (toSlots (r.document owner) (Value.relocateItems r items))
  | [], _, _, _ => @Alike.pure _ _ _ (Cargo.slot r).list [] (by simp [Cargo.list])
  | v :: items, scope, inside, within => by
    rw [Value.relocateItems, toSlots, toSlots]
    refine (alike_toView inside within.1).bind fun {wider} le first firstWithin => ?_
    refine (alike_toSlots (Nat.lt_of_lt_of_le inside le.1) (within.2.mono le)).bind
      fun {widest} more rest restWithin => ?_
    refine @Alike.pure _ _ _ (Cargo.slot r).list (.value first :: rest) fun slot among => ?_
    rcases List.mem_cons.mp among with rfl | among
    · exact firstWithin.mono more
    · exact restWithin slot among

theorem alike_toEntrySlots {owner : DocumentId} : ∀ {entries : List (String × Value)} {scope : Scope},
    owner < scope.documents → Value.EntriesWithin scope entries →
      Alike r (Cargo.slot r).entries scope (toEntrySlots owner entries)
        (toEntrySlots (r.document owner) (Value.relocateEntries r entries))
  | [], _, _, _ => @Alike.pure _ _ _ (Cargo.slot r).entries [] (by simp [Cargo.list])
  | (key, v) :: entries, scope, inside, within => by
    rw [Value.relocateEntries, toEntrySlots, toEntrySlots]
    refine (alike_toView inside within.1).bind fun {wider} le first firstWithin => ?_
    refine (alike_toEntrySlots (Nat.lt_of_lt_of_le inside le.1) (within.2.mono le)).bind
      fun {widest} more rest restWithin => ?_
    refine @Alike.pure _ _ _ (Cargo.slot r).entries ((key, .value first) :: rest) fun entry among => ?_
    rcases List.mem_cons.mp among with rfl | among
    · exact ⟨trivial, firstWithin.mono more⟩
    · exact restWithin entry among

end

/-- A list view of values that have been evaluated. -/
theorem alike_viewOfValues {owner : DocumentId} {items : List Value}
    (inside : owner < scope.documents) (within : ∀ v ∈ items, v.Within scope) :
    Alike r (.view r) scope (addView (.list owner (items.map .value)))
      (addView (.list (r.document owner) (((Cargo.value r).list.relocate items).map .value))) := by
  have made : (View.list owner (items.map .value)).Within scope := by
    refine ⟨inside, fun slot among => ?_⟩
    obtain ⟨v, isItem, rfl⟩ := List.mem_map.mp among
    exact within v isItem
  have same : (View.list owner (items.map .value)).relocate r =
      .list (r.document owner) (((Cargo.value r).list.relocate items).map .value) := by
    change View.list _ (List.map _ (List.map _ items)) = .list _ (List.map _ (List.map _ items))
    rw [List.map_map, List.map_map]
    rfl
  have added := Alike.addView (r := r) made
  rwa [same] at added

/-! ### Copying and merging -/

/-- Copies that begin with the same marks are alike. -/
private def CopiesAlike {α : Type} (r : Relocation) (c : Cargo α) (scope : Scope)
    (copy other : StateT (List (Mark × Mark)) Eval α) : Prop :=
  ∀ marks, Alike r (c.pair .plain) scope (copy.run marks) (other.run marks)

private theorem CopiesAlike.pure {α : Type} {c : Cargo α} {a : α} (within : c.Within scope a) :
    CopiesAlike r c scope (Pure.pure a) (Pure.pure (c.relocate a)) :=
  fun marks => @Alike.pure _ _ _ (c.pair .plain) (a, marks) ⟨within, trivial⟩

private theorem CopiesAlike.value {v : Value} (within : v.Within scope) :
    CopiesAlike r (.value r) scope (Pure.pure v) (Pure.pure (v.relocate r)) :=
  @CopiesAlike.pure _ _ _ (.value r) v within

private theorem CopiesAlike.bind {α β : Type} {c : Cargo α} {d : Cargo β}
    {first otherFirst : StateT (List (Mark × Mark)) Eval α}
    {next otherNext : α → StateT (List (Mark × Mark)) Eval β}
    (alike : CopiesAlike r c scope first otherFirst)
    (goesOn : ∀ {wider}, scope ≤ wider → ∀ a, c.Within wider a →
      CopiesAlike r d wider (next a) (otherNext (c.relocate a))) :
    CopiesAlike r d scope (first >>= next) (otherFirst >>= otherNext) := by
  intro marks
  rw [StateT.run_bind, StateT.run_bind]
  exact (alike marks).bind fun le a within => goesOn le a.1 within.1 a.2

private theorem copiesAlike_copyMark (mark : Mark) :
    CopiesAlike r .plain scope (copyMark mark) (copyMark mark) := by
  have kept : CopiesAlike r .plain scope (get : StateT (List (Mark × Mark)) Eval _) get :=
    fun marks => @Alike.pure _ _ _ (Cargo.plain.pair .plain) (marks, marks) ⟨trivial, trivial⟩
  refine kept.bind fun le marks _ => ?_
  rw [show Cargo.plain.relocate marks = marks from rfl]
  cases marks.lookup mark with
  | some copied => exact CopiesAlike.pure (c := .plain) trivial
  | none =>
    have made {scope : Scope} : CopiesAlike r .plain scope (liftM freshMark) (liftM freshMark) :=
      fun marks => by
        change Alike r _ scope (freshMark >>= fun copied => Pure.pure (copied, marks))
          (freshMark >>= fun copied => Pure.pure (copied, marks))
        exact Alike.freshMark.bind fun _ copied _ =>
          @Alike.pure _ _ _ (Cargo.plain.pair .plain) (copied, marks) ⟨trivial, trivial⟩
    refine made.bind fun le copied _ => ?_
    refine CopiesAlike.bind (c := .plain) (fun marks => ?_) fun _ _ _ => CopiesAlike.pure trivial
    exact @Alike.pure _ _ _ (Cargo.plain.pair .plain) ((), _) ⟨trivial, trivial⟩

mutual

private theorem copiesAlike_copyWith : ∀ {v : Value} {scope : Scope}, v.Within scope →
    CopiesAlike r (.value r) scope (copyWith v) (copyWith (v.relocate r))
  | .list items mark, scope, within => by
    rw [Value.Within] at within
    rw [Value.relocate, copyWith, copyWith]
    refine (copiesAlike_copyItems within).bind fun {wider} le items itemsWithin => ?_
    refine (copiesAlike_copyMark mark).bind fun {widest} more copied _ => ?_
    have copies := @CopiesAlike.value r widest (.list items copied)
      (Value.within_list.mpr fun v among => (itemsWithin v among).mono more)
    rwa [Value.relocate_list] at copies
  | .dict entries mark, scope, within => by
    rw [Value.Within] at within
    rw [Value.relocate, copyWith, copyWith]
    refine (copiesAlike_copyEntries within).bind fun {wider} le entries entriesWithin => ?_
    refine (copiesAlike_copyMark mark).bind fun {widest} more copied _ => ?_
    have copies := @CopiesAlike.value r widest (.dict entries copied)
      (Value.within_dict.mpr fun entry among => ⟨trivial, (entriesWithin entry among).2.mono more⟩)
    rwa [Value.relocate_dict] at copies
  | .object name attributes mark, scope, within => by
    rw [Value.Within] at within
    rw [Value.relocate, copyWith, copyWith]
    refine (copiesAlike_copyEntries within).bind fun {wider} le attributes attributesWithin => ?_
    refine (copiesAlike_copyMark mark).bind fun {widest} more copied _ => ?_
    have inside : (Value.object name attributes copied).Within widest := by
      rw [Value.Within, Value.entriesWithin_iff]
      exact fun entry among => (attributesWithin entry among).2.mono more
    have copies := @CopiesAlike.value r _ _ inside
    rwa [Value.relocate, Value.relocateEntries_eq] at copies
  | .date d mark, _, _ => (copiesAlike_copyMark mark).bind fun _ copied _ =>
    @CopiesAlike.value r _ (.date d copied) trivial
  | .dateTime t mark, _, _ => (copiesAlike_copyMark mark).bind fun _ copied _ =>
    @CopiesAlike.value r _ (.dateTime t copied) trivial
  | .function _ _ _ _, _, within => by
    have copies := @CopiesAlike.value r _ _ within
    simpa only [Value.relocate, copyWith] using copies
  | .null, _, within | .absent, _, within | .bool _, _, within | .number _ _, _, within
  | .text _ _, _, within | .listView _, _, within | .mappingView _, _, within
  | .document _, _, within => CopiesAlike.value within

private theorem copiesAlike_copyItems : ∀ {items : List Value} {scope : Scope},
    Value.ItemsWithin scope items →
      CopiesAlike r (Cargo.value r).list scope (copyItems items)
        (copyItems (Value.relocateItems r items))
  | [], _, _ => @CopiesAlike.pure r _ _ (Cargo.value r).list [] (by simp [Cargo.list])
  | v :: items, scope, within => by
    rw [Value.relocateItems, copyItems, copyItems]
    refine (copiesAlike_copyWith within.1).bind fun le first firstWithin => ?_
    refine (copiesAlike_copyItems (within.2.mono le)).bind fun more rest restWithin => ?_
    refine @CopiesAlike.pure r _ _ (Cargo.value r).list (first :: rest) fun v among => ?_
    rcases List.mem_cons.mp among with rfl | among
    · exact Value.Within.mono more firstWithin
    · exact restWithin v among

private theorem copiesAlike_copyEntries : ∀ {entries : List (String × Value)} {scope : Scope},
    Value.EntriesWithin scope entries →
      CopiesAlike r (Cargo.value r).entries scope (copyEntries entries)
        (copyEntries (Value.relocateEntries r entries))
  | [], _, _ => @CopiesAlike.pure r _ _ (Cargo.value r).entries [] (by simp [Cargo.list])
  | (key, v) :: entries, scope, within => by
    rw [Value.relocateEntries, copyEntries, copyEntries]
    refine (copiesAlike_copyWith within.1).bind fun le first firstWithin => ?_
    refine (copiesAlike_copyEntries (within.2.mono le)).bind fun more rest restWithin => ?_
    refine @CopiesAlike.pure r _ _ (Cargo.value r).entries ((key, first) :: rest) fun entry among => ?_
    rcases List.mem_cons.mp among with rfl | among
    · exact ⟨trivial, Value.Within.mono more firstWithin⟩
    · exact restWithin entry among

end

theorem alike_copy {v : Value} (within : v.Within scope) :
    Alike r (.value r) scope (copy v) (copy (v.relocate r)) :=
  (copiesAlike_copyWith within []).bind fun _ _ inside => .value inside.1

mutual

theorem alike_mergeValue : ∀ {update : Value} {base : Option Value} {scope : Scope},
    (∀ v, base = some v → v.Within scope) → update.Within scope →
      Alike r (.value r) scope (Value.mergeValue copy base update)
        (Value.mergeValue copy (base.map (Value.relocate r)) (update.relocate r))
  | .dict updates mark, base, scope, baseWithin, within => by
    have update := @alike_copy r scope (.dict updates mark) within
    rw [Value.Within] at within
    rw [Value.relocate] at update ⊢
    unfold Value.mergeValue
    cases base with
    | none => exact update
    | some v =>
      have whole := @alike_copy r scope v (baseWithin v rfl)
      cases v with
      | dict entries baseMark =>
        rw [Value.relocate] at whole
        simp only [Option.map_some, Value.relocate]
        refine whole.bind fun {wider} le copied copiedWithin => ?_
        cases copied with
        | dict copied copiedMark =>
          have copiedWithin : (Value.dict copied copiedMark).Within wider := copiedWithin
          rw [Value.Within] at copiedWithin
          rw [show (Cargo.value r).relocate (.dict copied copiedMark) =
            .dict ((Cargo.value r).entries.relocate copied) copiedMark from
              Value.relocate_dict r copied copiedMark]
          refine (alike_mergeEntries copiedWithin (within.mono le)).bind
            fun {widest} more merged mergedWithin => ?_
          have alike := @Alike.value r widest (.dict merged copiedMark)
            (Value.within_dict.mpr mergedWithin)
          rwa [Value.relocate_dict] at alike
        | _ => exact .value copiedWithin
      | _ => exact update
  | .object name attributes mark, _, _, _, within => by
    have alike := @alike_copy r _ _ within
    simpa only [Value.relocate, Value.mergeValue] using alike
  | .list items mark, _, _, _, within => by
    have alike := @alike_copy r _ _ within
    simpa only [Value.relocate, Value.mergeValue] using alike
  | .function _ _ _ _, _, _, _, within => by
    have alike := @alike_copy r _ _ within
    simpa only [Value.relocate, Value.mergeValue] using alike
  | .null, _, _, _, within | .absent, _, _, _, within | .bool _, _, _, _, within
  | .number _ _, _, _, _, within | .text _ _, _, _, _, within | .date _ _, _, _, _, within
  | .dateTime _ _, _, _, _, within | .listView _, _, _, _, within
  | .mappingView _, _, _, _, within | .document _, _, _, _, within => by
    have alike := @alike_copy r _ _ within
    simpa only [Value.relocate, Value.mergeValue] using alike

theorem alike_mergeEntries : ∀ {updates result : List (String × Value)} {scope : Scope},
    Value.EntriesWithin scope result → Value.EntriesWithin scope updates →
      Alike r (Cargo.value r).entries scope (Value.mergeEntries copy result updates)
        (Value.mergeEntries copy ((Cargo.value r).entries.relocate result)
          (Value.relocateEntries r updates))
  | [], result, scope, resultWithin, _ =>
    @Alike.pure _ _ _ (Cargo.value r).entries result fun entry among =>
      ⟨trivial, (Value.entriesWithin_iff scope).mp resultWithin entry among⟩
  | (key, update) :: updates, result, scope, resultWithin, within => by
    rw [Value.relocateEntries, Value.mergeEntries, Value.mergeEntries]
    have isResult : (Cargo.value r).entries.relocate result = Value.relocateEntries r result :=
      (Value.relocateEntries_eq r result).symm
    rw [isResult, Value.lookup_relocateEntries]
    refine (alike_mergeValue (fun v found => resultWithin.lookup found) within.1).bind
      fun {wider} le merged mergedWithin => ?_
    have rest := @alike_mergeEntries updates (Value.putEntry key merged result) wider
      ((resultWithin.mono le).putEntry mergedWithin) (within.2.mono le)
    rwa [show (Cargo.value r).entries.relocate (Value.putEntry key merged result) =
      Value.putEntry key (merged.relocate r) (Value.relocateEntries r result) from
        (Value.relocateEntries_eq r _).symm.trans (Value.putEntry_relocate key merged result).symm]
      at rest

end

theorem alike_mergedView {owner : DocumentId} {base update : Value} (inside : owner < scope.documents)
    (baseWithin : base.Within scope) (within : update.Within scope) :
    Alike r (.value r) scope (mergedView owner base update)
      (mergedView (r.document owner) (base.relocate r) (update.relocate r)) := by
  have merged := @alike_mergeValue r update (some base) scope
    (fun v same => Option.some.inj same ▸ baseWithin) within
  exact merged.bind fun le v vWithin => alike_toView (Nat.lt_of_lt_of_le inside le.1) vWithin

/-! ### Views of trees -/

/-- The view of a mapping of a text holds trees. -/
theorem relocate_collected {unique : Bool} {entries : List (Token × Node)}
    {found : List (String × Slot)} (collected : collectEntries unique [] [] entries = .ok found) :
    (Cargo.slot r).entries.relocate found = found ∧
      ∀ entry ∈ found, True ∧ entry.2.Within scope := by
  have trees : ∀ entry ∈ found, ∃ n, entry.2 = .node n := by
    intro entry among
    rcases mem_collectEntries collected among with none | ⟨e, -, same⟩
    · cases none
    · exact ⟨e.2, same⟩
  constructor
  · refine (List.map_congr_left fun entry among => ?_).trans (List.map_id found)
    obtain ⟨n, same⟩ := trees entry among
    obtain ⟨key, slot⟩ := entry
    cases same
    rfl
  · intro entry among
    obtain ⟨n, same⟩ := trees entry among
    rw [same]
    exact ⟨trivial, trivial⟩

theorem alike_sharedView {id : DocumentId} (span : Span) {make other : Eval View}
    (inside : id < scope.documents)
    (alike : ∀ {wider}, scope ≤ wider → Alike r (.viewContent r) wider make other) :
    Alike r (.view r) scope (sharedView id span make) (sharedView (r.document id) span other) := by
  refine (Alike.document inside).bind fun {wider} le d within => ?_
  rw [show ((Cargo.content r).relocate d).views.lookup ⟨span.source, span.start⟩ =
    (d.views.lookup ⟨span.source, span.start⟩).map r.view from Cargo.lookup_relocate (.view r) _ _]
  cases known : d.views.lookup ⟨span.source, span.start⟩ with
  | some view => exact @Alike.pure _ _ _ (.view r) view (Cargo.within_lookup within.views known)
  | none =>
    refine (alike le).bind fun {wide} more v vWithin => ?_
    refine (Alike.addView vWithin).bind fun {widest} most view present => ?_
    have there := (Cargo.document r).mono ((le.trans more).trans most) inside
    refine Alike.bind (Alike.modifyDocument there (fun d => rfl) (fun wide d within => ?_) fun d => rfl)
      fun last _ _ => ?_
    · refine { within with views := fun entry among => ?_ }
      rcases List.mem_cons.mp among with rfl | among
      · exact ⟨trivial, (Cargo.view r).mono wide present⟩
      · exact within.views entry among
    · exact @Alike.pure _ _ _ (.view r) view ((Cargo.view r).mono last present)

theorem alike_mappingView {id : DocumentId} (entries : List (Token × Node)) (span : Span)
    (inside : id < scope.documents) :
    Alike r (.view r) scope (mappingView id entries span)
      (mappingView (r.document id) entries span) := by
  refine alike_sharedView span inside fun {wider} le => .settings fun environment outside => ?_
  cases collected : collectEntries environment.settings.noDuplicates [] [] entries with
  | error e => exact .throw _
  | ok found =>
    obtain ⟨same, within⟩ := @relocate_collected r wider _ _ _ collected
    have alike := @Alike.pure _ r wider (.viewContent r) (.mapping id found)
      ⟨(Cargo.document r).mono le inside, within⟩
    rwa [show (Cargo.viewContent r).relocate (.mapping id found) = .mapping (r.document id) found from
      congrArg _ same] at alike

theorem alike_listView {id : DocumentId} (elements : List Node) (span : Span)
    (inside : id < scope.documents) :
    Alike r (.view r) scope (listView id elements span)
      (listView (r.document id) elements span) := by
  refine alike_sharedView span inside fun {wider} le => ?_
  have alike := @Alike.pure _ r wider (.viewContent r) (.list id (elements.map .node))
    ⟨(Cargo.document r).mono le inside, fun slot among => by
      obtain ⟨n, -, rfl⟩ := List.mem_map.mp among
      trivial⟩
  rwa [show (Cargo.viewContent r).relocate (.list id (elements.map .node)) =
    .list (r.document id) (elements.map .node) from
      congrArg (View.list _) (List.map_map.trans rfl)] at alike

/-! ### Looking into views -/

theorem alike_hasKey {id : ViewId} (key : String) (inside : id < scope.views) :
    Alike r .plain scope (hasKey id key) (hasKey (r.view id) key) := by
  refine (Alike.entries inside).bind fun _ entries _ => ?_
  rw [Cargo.lookup_relocate, Option.isSome_map]
  exact .plain _

theorem alike_keys {id : ViewId} (inside : id < scope.views) :
    Alike r .plain scope (keys id) (keys (r.view id)) := by
  refine (Alike.entries inside).bind fun _ entries _ => ?_
  rw [show ((Cargo.slot r).entries.relocate entries).map (·.1) = entries.map (·.1) from
    List.map_map.trans rfl]
  exact .plain _

theorem alike_iterating {α : Type} {c : Cargo α} {e other : Eval α} (alike : Alike r c scope e other) :
    Alike r c scope (iterating e) (iterating other) := by
  refine alike.tryCatch fun _ failure => ?_
  split
  · exact .failHost _
  · exact .throw _

variable {m : Machine} (asks : m.AsksAlike r)

include asks

theorem alike_slotValue {owner : DocumentId} {slot : Slot} (inside : owner < scope.documents)
    (within : slot.Within scope) :
    Alike r (.value r) scope (slotValue m owner slot)
      (slotValue m (r.document owner) (slot.relocate r)) := by
  cases slot with
  | node n => exact @asks scope (.evaluate owner n) inside
  | value v => exact .value within

theorem alike_element {id : ViewId} (index : Nat) (inside : id < scope.views) :
    Alike r (.value r) scope (element m id index) (element m (r.view id) index) := by
  refine (Alike.slots inside).bind fun {wider} le slots within => ?_
  rw [show ((Cargo.slot r).list.relocate slots)[index]? = slots[index]?.map (Slot.relocate r) from
    List.getElem?_map]
  cases found : slots[index]? with
  | none => exact .failHost _
  | some slot =>
    have there := (Cargo.view r).mono le inside
    have slotWithin := within slot (List.mem_of_getElem? found)
    refine (Alike.viewOwner there).bind fun {wide} more owner ownerInside => ?_
    refine (alike_slotValue asks ownerInside ((Cargo.slot r).mono more slotWithin)).bind
      fun {widest} most v vWithin => ?_
    refine (Alike.setSlot index ((Cargo.view r).mono (more.trans most) there) vWithin).bind
      fun last _ _ => .value ((Cargo.value r).mono last vWithin)

theorem alike_elements {id : ViewId} (inside : id < scope.views) :
    Alike r (Cargo.value r).list scope (elements m id) (elements m (r.view id)) := by
  refine (Alike.slots inside).bind fun {wider} le slots _ => ?_
  rw [show ((Cargo.slot r).list.relocate slots).length = slots.length from List.length_map _]
  exact .mapM_plain fun more index =>
    alike_iterating (alike_element asks index ((Cargo.view r).mono (le.trans more) inside))

theorem alike_entryValue? {id : ViewId} (key : String) (inside : id < scope.views) :
    Alike r (Cargo.value r).option scope (entryValue? m id key) (entryValue? m (r.view id) key) := by
  refine (Alike.entries inside).bind fun {wider} le entries within => ?_
  rw [Cargo.lookup_relocate]
  cases found : entries.lookup key with
  | none => exact @Alike.pure _ _ _ (Cargo.value r).option none (fun _ isSome => by cases isSome)
  | some slot =>
    have slotWithin : slot.Within wider := @Cargo.within_lookup _ _ _ (.slot r) _ _ _ _ within found
    refine (Alike.viewOwner ((Cargo.view r).mono le inside)).bind fun more owner ownerInside => ?_
    refine (alike_slotValue asks ownerInside (slotWithin.mono more)).bind fun _ v vWithin => ?_
    exact @Alike.pure _ _ _ (Cargo.value r).option (some v)
      fun _ isSome => Option.some.inj isSome ▸ vWithin

theorem alike_materialize {v : Value} (within : v.Within scope) :
    Alike r (.value r) scope (m.materialize v) (m.materialize (v.relocate r)) :=
  @asks scope (.materialize v) within

theorem alike_asList {id : ViewId} (inside : id < scope.views) :
    Alike r (.value r) scope (asList m id) (asList m (r.view id)) := by
  refine (Alike.slots inside).bind fun {wider} le slots _ => ?_
  rw [show ((Cargo.slot r).list.relocate slots).length = slots.length from List.length_map _]
  have items : Alike r (Cargo.value r).list wider
      ((List.range slots.length).mapM fun index => do
        m.materialize (← iterating (element m id index)))
      ((List.range slots.length).mapM fun index => do
        m.materialize (← iterating (element m (r.view id) index))) :=
    .mapM_plain fun more index =>
      (alike_iterating (alike_element asks index ((Cargo.view r).mono (le.trans more) inside))).bind
        fun _ v vWithin => alike_materialize asks vWithin
  exact items.bind fun _ items within => .newList within

theorem alike_asDict {id : ViewId} (inside : id < scope.views) :
    Alike r (.value r) scope (asDict m id) (asDict m (r.view id)) := by
  refine (Alike.viewOwner inside).bind fun {wider} le owner ownerInside => ?_
  refine (Alike.entries ((Cargo.view r).mono le inside)).bind fun {wide} more entries within => ?_
  refine Alike.bind (c := (Cargo.value r).entries) ?_ fun _ items within => .newDict within
  refine Alike.mapM (fun {widest} most entry entryWithin => ?_) within
  have there := (Cargo.document r).mono (more.trans most) ownerInside
  refine (alike_iterating (alike_slotValue asks there entryWithin.2)).bind fun last v vWithin => ?_
  refine (alike_materialize asks vWithin).bind fun _ v vWithin => ?_
  exact @Alike.pure _ _ _ (Cargo.plain.pair (.value r)) (entry.1, v) ⟨trivial, vWithin⟩

theorem alike_documentDict {id : DocumentId} (inside : id < scope.documents) :
    Alike r (.value r) scope (documentDict m id) (documentDict m (r.document id)) := by
  refine (Alike.document inside).bind fun {wider} le d within => ?_
  rw [Cargo.root_content]
  cases isRoot : d.root with
  | none => exact .fail _ _
  | some root => exact alike_asDict asks (within.root root isRoot)

theorem alike_materializeStep {v : Value} (within : v.Within scope) :
    Alike r (.value r) scope (materializeStep m v) (materializeStep m (v.relocate r)) := by
  have same := @Alike.value r scope v within
  cases v with
  | listView id => exact alike_asList asks within
  | mappingView id => exact alike_asDict asks within
  | document id => exact alike_documentDict asks within
  | list _ _ | dict _ _ | object _ _ _ | function _ _ _ _ =>
    simpa only [Value.relocate, materializeStep] using same
  | _ => exact same

theorem alike_unwrap {v : Value} (within : v.Within scope) :
    Alike r (.value r) scope (unwrap m v) (unwrap m (v.relocate r)) := by
  have same := @Alike.value r scope v within
  cases v with
  | listView id => exact alike_asList asks within
  | mappingView id => exact alike_asDict asks within
  | list _ _ | dict _ _ | object _ _ _ | function _ _ _ _ =>
    simpa only [Value.relocate, unwrap] using same
  | _ => exact same

end Evaluation

end LazyConfig
