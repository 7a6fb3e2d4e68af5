import LazyConfig.Proofs.Failure.Contained

/-!
# Contained evaluations of views

The values that views hold, and those of their trees, are local; a value that is evaluated in full
holds no view any more. Indices are counted from the view that they are used on, and no slot of a list
goes away, so that no index leads out of a list.
-/

namespace LazyConfig

open Eval
open Evaluation

/-- The answers to the requests that can be met in a local store are contained. -/
structure Machine.IsLocal (headed : Bool) (m : Machine) : Prop where
  asked : ∀ request, (m.ask request).Evolving
  evaluate : ∀ tree : Node, tree.standsAlone headed →
    Contained headed Value.IsLocal (m.evaluate 0 tree)
  materialize : ∀ v : Value, v.IsLocal → Contained headed Value.IsOutside (m.materialize v)

namespace Evaluation

variable {headed : Bool} {m : Machine} {environment : Environment} {s : Store}

/-! ### Elements and entries -/

theorem contained_iterating {α : Type} {holds : α → Prop} {body : Eval α}
    (contained : Contained headed holds body) : Contained headed holds (iterating body) := by
  refine contained.tryCatch fun failure acceptable => ?_
  split
  · exact .failHost acceptable
  · exact fun _ _ _ isLocal => ⟨isLocal, acceptable⟩

theorem containedFrom_iterating {α : Type} {holds : α → Prop} {body : Eval α}
    (contained : body.ContainedFrom headed environment s holds) :
    (iterating body).ContainedFrom headed environment s holds := by
  obtain ⟨isLocal, acceptable⟩ := contained
  rw [ContainedFrom, run_iterating]
  split
  · rename_i left ran
    rw [ran] at isLocal acceptable
    exact ⟨isLocal, acceptable⟩
  · exact ⟨isLocal, acceptable⟩

section

variable (answers : m.IsLocal headed)

include answers

theorem contained_slotValue {slot : Slot} (isSlot : slot.IsLocal headed) :
    Contained headed Value.IsLocal (slotValue m 0 slot) := by
  cases slot with
  | node tree => exact answers.evaluate tree isSlot
  | value v => exact .pure isSlot

theorem containedFrom_element (outside : ∀ entry ∈ environment.settings.context, entry.2.IsOutside)
    (isLocal : s.IsLocal headed) {id : ViewId} {index : Nat}
    (inside : index < (s.view id).slots.length) :
    (element m id index).ContainedFrom headed environment s Value.IsLocal := by
  -- inside the list the index never leads to no slot, which would be a fault
  have isSlot : (s.view id).slots[index]? = some (s.view id).slots[index] :=
    List.getElem?_eq_getElem inside
  have isLocalSlot := (isLocal.views id).slots _ (List.getElem_mem inside)
  rw [ContainedFrom, element, run_bind, run_viewSlots]
  dsimp only
  rw [isSlot]
  dsimp only
  rw [run_bind, run_viewOwner, (isLocal.views id).owner_eq]
  refine Contained.bind (contained_slotValue answers isLocalSlot) (fun v isValue => ?_) environment s
    outside isLocal
  exact (Contained.setSlot id index isValue).bind fun _ _ => .pure isValue

omit answers in
/-- What is done with the elements of a list one after the other, without leaving the list. -/
theorem containedFrom_elements {β : Type} {yields : β → Prop} {f : Nat → Eval β} {id : ViewId}
    (outside : ∀ entry ∈ environment.settings.context, entry.2.IsOutside)
    (evolving : ∀ index, (f index).Evolving)
    (each : ∀ index s, s.IsLocal headed → index < (s.view id).slots.length →
      (f index).ContainedFrom headed environment s yields) :
    ∀ (indices : List Nat) (s : Store), s.IsLocal headed →
      (∀ index ∈ indices, index < (s.view id).slots.length) →
      (indices.mapM f).ContainedFrom headed environment s fun found => ∀ b ∈ found, yields b
  | [], s, isLocal, _ => ⟨isLocal, by simp [Acceptable]⟩
  | index :: indices, s, isLocal, inside => by
    rw [List.mapM_cons]
    refine (each index s isLocal (inside index List.mem_cons_self)).bind
      fun b middle ran isMiddle isHeld => ?_
    -- slots may have been filled meanwhile, but none has gone
    have kept : s.Keeps middle := (evolving index).keeps ran
    have rest := containedFrom_elements outside evolving each indices middle isMiddle
      fun other among => kept.slot_lt (inside other (List.mem_cons_of_mem _ among))
    refine rest.bind fun found left _ isLeft areHeld => ⟨isLeft, ?_⟩
    exact List.forall_mem_cons.mpr ⟨isHeld, areHeld⟩

omit answers in
/-- What is done with all elements of a list one after the other. -/
theorem contained_range {β : Type} {yields : β → Prop} {f : Nat → Eval β} {id : ViewId}
    (evolving : ∀ index, (f index).Evolving)
    (each : ∀ (environment : Environment) (index : Nat) (s : Store),
      (∀ entry ∈ environment.settings.context, entry.2.IsOutside) → s.IsLocal headed →
      index < (s.view id).slots.length → (f index).ContainedFrom headed environment s yields) :
    Contained headed (fun found : List β => ∀ b ∈ found, yields b) (do
      let count := (← Eval.slots id).length
      (List.range count).mapM f) := by
  intro environment s outside isLocal
  rw [ContainedFrom, run_bind, run_viewSlots]
  exact containedFrom_elements outside evolving (fun index s => each environment index s outside)
    (List.range (s.view id).slots.length) s isLocal fun index among => List.mem_range.mp among

theorem contained_elements (id : ViewId) :
    Contained headed (fun items : List Value => ∀ v ∈ items, v.IsLocal) (elements m id) := by
  refine contained_range ?_ ?_
  · exact fun index => evolving_iterating (evolving_element answers.asked id index)
  · intro environment index s outside isLocal inside
    exact containedFrom_iterating (containedFrom_element answers outside isLocal inside)

theorem contained_entryValue? (id : ViewId) (key : String) :
    Contained headed (fun found : Option Value => ∀ v, found = some v → v.IsLocal)
      (entryValue? m id key) := by
  refine (Contained.entries id).bind fun entries areLocal => ?_
  split
  · exact .pure (by simp)
  · rename_i slot isEntry
    refine (Contained.viewOwner id).bind fun owner isOwner => ?_
    subst isOwner
    obtain ⟨entry, among, rfl⟩ := mem_of_lookup isEntry
    exact (contained_slotValue answers (areLocal entry among)).bind fun v isValue =>
      .pure fun w same => by cases same; exact isValue

theorem contained_asList (id : ViewId) : Contained headed Value.IsOutside (asList m id) := by
  have inSteps : asList m id = (do
      let count := (← Eval.slots id).length
      (List.range count).mapM fun index => do
        m.materialize (← iterating (element m id index))) >>= newList := by
    simp only [asList, bind_assoc]
  rw [inSteps]
  refine (contained_range ?_ ?_).bind fun items outside => .newList outside
  · exact fun index => (evolving_iterating (evolving_element answers.asked id index)).bind
      fun v => answers.asked _
  · intro environment index s outside isLocal inside
    refine (containedFrom_iterating (containedFrom_element answers outside isLocal inside)).bind
      fun v left _ isLeft isValue => ?_
    exact answers.materialize v isValue environment left outside isLeft

theorem contained_asDict (id : ViewId) : Contained headed Value.IsOutside (asDict m id) := by
  refine (Contained.viewOwner id).bind fun owner isOwner => ?_
  subst isOwner
  refine (Contained.entries id).bind fun entries areLocal => ?_
  refine Contained.bind (Contained.mapM fun entry among => ?_) fun found outside => .newDict outside
  refine (contained_iterating (contained_slotValue answers (areLocal entry among))).bind
    fun v isValue => ?_
  exact (answers.materialize v isValue).bind fun w outside => .pure outside

/-- What is evaluated in full holds no view. -/
theorem contained_materializeStep {v : Value} (isValue : v.IsLocal) :
    Contained headed Value.IsOutside (materializeStep m v) := by
  cases v with
  | listView id => exact contained_asList answers id
  | mappingView id => exact contained_asDict answers id
  | document id => exact absurd isValue (Value.not_isLocal_document id)
  | _ => exact .pure isValue

theorem contained_unwrap {v : Value} (isValue : v.IsLocal) :
    Contained headed Value.IsOutside (unwrap m v) := by
  cases v with
  | listView id => exact contained_asList answers id
  | mappingView id => exact contained_asDict answers id
  | _ => exact .pure isValue

end

theorem contained_hasKey (id : ViewId) (key : String) :
    Contained headed (fun _ => True) (hasKey id key) :=
  (Contained.entries id).bind fun _ _ => .pure trivial

theorem contained_keys (id : ViewId) : Contained headed (fun _ => True) (keys id) :=
  (Contained.entries id).bind fun _ _ => .pure trivial

/-! ### Views of trees -/

theorem contained_sharedView {span : Span} {make : Eval View}
    (made : Contained headed (·.IsLocal headed) make) :
    Contained headed (fun _ => True) (sharedView 0 span make) := by
  refine Contained.document.bind fun d _ => ?_
  split
  · exact .pure trivial
  · refine made.bind fun view isView => (Contained.addView isView).bind fun id _ => ?_
    refine Contained.bind (Contained.modifyDocument ?_ ?_) fun _ _ => .pure trivial
    · exact fun _ loaded => loaded
    · exact fun _ pending => pending

/-- The entries of a mapping that stands alone make a local view. -/
theorem isLocal_collectEntries {unique : Bool} {entries : List (Token × Node)} {span : Span}
    {found : List (String × Slot)} (alone : (Node.mapping entries span).standsAlone headed)
    (collected : collectEntries unique [] [] entries = .ok found) :
    (View.mapping 0 found).IsLocal headed := by
  refine ⟨rfl, fun entry among => ?_⟩
  rcases mem_collectEntries collected among with inNone | ⟨e, isEntry, same⟩
  · cases inNone
  · rw [same]
    exact Node.standsAlone_entries alone e isEntry

theorem contained_mappingView {entries : List (Token × Node)} {span : Span}
    (alone : (Node.mapping entries span).standsAlone headed) :
    Contained headed (fun _ => True) (mappingView 0 entries span) := by
  refine contained_sharedView (Contained.settings.bind fun settings _ => ?_)
  split
  · rename_i found collected
    exact .pure (isLocal_collectEntries alone collected)
  · exact fun _ _ _ isLocal => ⟨isLocal, trivial⟩

theorem contained_listView {elements : List Node} {span : Span}
    (alone : (Node.list elements span).standsAlone headed) :
    Contained headed (fun _ => True) (listView 0 elements span) := by
  refine contained_sharedView (.pure ⟨rfl, fun slot among => ?_⟩)
  obtain ⟨tree, isElement, rfl⟩ := List.mem_map.mp among
  exact Node.standsAlone_elements alone tree isElement

/-! ### Views of plain values -/

mutual

theorem contained_toView : ∀ {v : Value}, v.IsOutside →
    Contained headed Value.IsLocal (toView 0 v)
  | .list items _, outside => by
    rw [toView]
    refine (contained_toSlots ((Value.itemsWithin_iff _).mp outside)).bind fun slots areLocal => ?_
    have isView : (View.list 0 slots).IsLocal headed := ⟨rfl, areLocal⟩
    exact (Contained.addView isView).bind fun id _ => .pure trivial
  | .dict entries _, outside => by
    rw [toView]
    refine (contained_toEntrySlots ((Value.entriesWithin_iff _).mp outside)).bind
      fun slots areLocal => ?_
    have isView : (View.mapping 0 slots).IsLocal headed := ⟨rfl, areLocal⟩
    exact (Contained.addView isView).bind fun id _ => .pure trivial
  | .null, outside | .absent, outside | .bool _, outside | .number _ _, outside
  | .text _ _, outside | .date _ _, outside | .dateTime _ _, outside | .object _ _ _, outside
  | .function _ _ _ _, outside | .listView _, outside | .mappingView _, outside
  | .document _, outside => .pure outside.isLocal

theorem contained_toSlots : ∀ {items : List Value}, (∀ v ∈ items, v.IsOutside) →
    Contained headed (fun slots => ∀ slot ∈ slots, slot.IsLocal headed) (toSlots 0 items)
  | [], _ => .pure (by simp)
  | v :: items, outside => by
    obtain ⟨first, others⟩ := List.forall_mem_cons.mp outside
    rw [toSlots]
    refine (contained_toView first).bind fun w isValue => ?_
    refine (contained_toSlots others).bind fun slots areLocal => ?_
    exact .pure (List.forall_mem_cons.mpr ⟨isValue, areLocal⟩)

theorem contained_toEntrySlots :
    ∀ {entries : List (String × Value)}, (∀ entry ∈ entries, entry.2.IsOutside) →
      Contained headed (fun slots => ∀ entry ∈ slots, entry.2.IsLocal headed)
        (toEntrySlots 0 entries)
  | [], _ => .pure (by simp)
  | (_, v) :: entries, outside => by
    obtain ⟨first, others⟩ := List.forall_mem_cons.mp outside
    rw [toEntrySlots]
    refine (contained_toView first).bind fun w isValue => ?_
    refine (contained_toEntrySlots others).bind fun slots areLocal => ?_
    exact .pure (List.forall_mem_cons.mpr ⟨isValue, areLocal⟩)

end

/-! ### Copies and merges -/

/-- Copying carries along the marks that have been copied. -/
private def Copies {α : Type} (headed : Bool) (holds : α → Prop)
    (c : StateT (List (Mark × Mark)) Eval α) : Prop :=
  ∀ marks, Contained headed (fun copied => holds copied.1) (c.run marks)

private theorem Copies.pure {α : Type} {holds : α → Prop} {a : α} (isHeld : holds a) :
    Copies headed holds (Pure.pure a) := fun _ => .pure isHeld

private theorem Copies.bind {α β : Type} {holds : α → Prop} {yields : β → Prop}
    {first : StateT (List (Mark × Mark)) Eval α}
    {next : α → StateT (List (Mark × Mark)) Eval β} (copies : Copies headed holds first)
    (goesOn : ∀ a, holds a → Copies headed yields (next a)) :
    Copies headed yields (first >>= next) := by
  intro marks
  rw [StateT.run_bind]
  exact (copies marks).bind fun a isHeld => goesOn a.1 isHeld a.2

private theorem copies_copyMark (mark : Mark) :
    Copies headed (fun _ => True) (copyMark mark) := by
  have copied : Copies headed (fun _ : List (Mark × Mark) => True) get := fun _ => .pure trivial
  have made : Copies headed (fun _ : Mark => True) (liftM freshMark) := fun marks =>
    Contained.freshMark.bind fun mark _ => .pure (a := (mark, marks)) trivial
  have noted (change : List (Mark × Mark) → List (Mark × Mark)) :
      Copies headed (fun _ : Unit => True) (modify change) := fun _ => .pure trivial
  refine copied.bind fun marks _ => ?_
  split
  · exact .pure trivial
  · exact made.bind fun mark _ => (noted _).bind fun _ _ => .pure trivial

mutual

private theorem copies_copyWith : ∀ {v : Value}, v.IsOutside →
    Copies headed Value.IsOutside (copyWith v)
  | .list items mark, outside => by
    rw [copyWith]
    refine (copies_copyItems ((Value.itemsWithin_iff _).mp outside)).bind fun copied areOutside => ?_
    exact (copies_copyMark mark).bind fun _ _ => .pure ((Value.itemsWithin_iff _).mpr areOutside)
  | .dict entries mark, outside => by
    rw [copyWith]
    refine (copies_copyEntries ((Value.entriesWithin_iff _).mp outside)).bind
      fun copied areOutside => ?_
    exact (copies_copyMark mark).bind fun _ _ => .pure ((Value.entriesWithin_iff _).mpr areOutside)
  | .date d mark, _ => (copies_copyMark mark).bind fun _ _ => .pure trivial
  | .dateTime t mark, _ => (copies_copyMark mark).bind fun _ _ => .pure trivial
  | .object name attributes mark, outside => by
    rw [copyWith]
    refine (copies_copyEntries ((Value.entriesWithin_iff _).mp outside)).bind
      fun copied areOutside => ?_
    exact (copies_copyMark mark).bind fun _ _ => .pure ((Value.entriesWithin_iff _).mpr areOutside)
  | .null, outside | .absent, outside | .bool _, outside | .number _ _, outside
  | .text _ _, outside | .function _ _ _ _, outside | .listView _, outside
  | .mappingView _, outside | .document _, outside => .pure outside

private theorem copies_copyItems : ∀ {items : List Value}, (∀ v ∈ items, v.IsOutside) →
    Copies headed (fun copied : List Value => ∀ v ∈ copied, v.IsOutside) (copyItems items)
  | [], _ => .pure (by simp)
  | v :: items, outside => by
    obtain ⟨first, others⟩ := List.forall_mem_cons.mp outside
    rw [copyItems]
    refine (copies_copyWith first).bind fun w isOutside => ?_
    refine (copies_copyItems others).bind fun copied areOutside => ?_
    exact .pure (List.forall_mem_cons.mpr ⟨isOutside, areOutside⟩)

private theorem copies_copyEntries :
    ∀ {entries : List (String × Value)}, (∀ entry ∈ entries, entry.2.IsOutside) →
      Copies headed (fun copied : List (String × Value) => ∀ entry ∈ copied, entry.2.IsOutside)
        (copyEntries entries)
  | [], _ => .pure (by simp)
  | (_, v) :: entries, outside => by
    obtain ⟨first, others⟩ := List.forall_mem_cons.mp outside
    rw [copyEntries]
    refine (copies_copyWith first).bind fun w isOutside => ?_
    refine (copies_copyEntries others).bind fun copied areOutside => ?_
    exact .pure (List.forall_mem_cons.mpr ⟨isOutside, areOutside⟩)

end

theorem contained_copy {v : Value} (outside : v.IsOutside) :
    Contained headed Value.IsOutside (copy v) :=
  (copies_copyWith outside []).bind fun _ isOutside => .pure isOutside

mutual

theorem contained_mergeValue {base : Option Value} (isBase : ∀ v, base = some v → v.IsOutside) :
    ∀ {update : Value}, update.IsOutside →
      Contained headed Value.IsOutside (Value.mergeValue copy base update)
  | .dict updates mark, outside => by
    unfold Value.mergeValue
    split
    · refine (contained_copy (isBase _ rfl)).bind fun copied isCopied => ?_
      split
      · exact (contained_mergeEntries isCopied
          ((Value.entriesWithin_iff _).mp outside)).bind fun merged areOutside =>
            .pure areOutside
      · exact .pure isCopied
    · exact contained_copy outside
  | .null, outside | .absent, outside | .bool _, outside | .number _ _, outside
  | .text _ _, outside | .date _ _, outside | .dateTime _ _, outside | .list _ _, outside
  | .object _ _ _, outside | .function _ _ _ _, outside | .listView _, outside
  | .mappingView _, outside | .document _, outside => by
    simp only [Value.mergeValue]
    exact contained_copy outside

theorem contained_mergeEntries {result : List (String × Value)}
    (areOutside : Value.EntriesWithin ⟨0, 0⟩ result) :
    ∀ {updates : List (String × Value)}, (∀ entry ∈ updates, entry.2.IsOutside) →
      Contained headed (Value.EntriesWithin ⟨0, 0⟩) (Value.mergeEntries copy result updates)
  | [], _ => .pure areOutside
  | (key, update) :: updates, outside => by
    obtain ⟨first, others⟩ := List.forall_mem_cons.mp outside
    rw [Value.mergeEntries]
    refine (contained_mergeValue (fun v found => areOutside.lookup found) first).bind
      fun merged isMerged => ?_
    exact contained_mergeEntries (areOutside.putEntry isMerged) others

end

theorem contained_mergedView {base update : Value} (isBase : base.IsOutside)
    (isUpdate : update.IsOutside) :
    Contained headed Value.IsLocal (mergedView 0 base update) := by
  refine (contained_mergeValue ?_ isUpdate).bind fun merged isMerged => contained_toView isMerged
  rintro v ⟨⟩
  exact isBase

end Evaluation

end LazyConfig
