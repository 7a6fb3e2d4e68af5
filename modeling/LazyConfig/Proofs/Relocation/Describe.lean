import LazyConfig.Proofs.Evaluation.Describe
import LazyConfig.Proofs.Relocation.Alike

/-!
# Showing relocated values

No number of a document or a view is ever shown, so that a value and the relocated one are shown as
the same text. How deep views may stand inside one another while they are shown depends on how many
of them the store has, but any depth that suffices leads to the same text.
-/

namespace LazyConfig.Evaluation

open Eval

variable {α β : Type} {r : Relocation} {environment : Environment} {s t : Store}

/-- Evaluations in two stores have the same result and change nothing. -/
def ReadAlike (environment : Environment) (s t : Store) (e other : Eval α) : Prop :=
  ∃ result, e.run environment s = (result, s) ∧ other.run environment t = (result, t)

namespace ReadAlike

theorem pure (a : α) : ReadAlike environment s t (pure a) (pure a) := ⟨.ok a, rfl, rfl⟩

theorem bind {e other : Eval α} {next otherNext : α → Eval β}
    (first : ReadAlike environment s t e other)
    (goesOn : ∀ a, ReadAlike environment s t (next a) (otherNext a)) :
    ReadAlike environment s t (e >>= next) (other >>= otherNext) := by
  obtain ⟨result, ran, otherRan⟩ := first
  cases result with
  | error failure => exact ⟨.error failure, by rw [run_bind, ran], by rw [run_bind, otherRan]⟩
  | ok a =>
    obtain ⟨last, ranOn, otherRanOn⟩ := goesOn a
    exact ⟨last, by rw [run_bind, ran]; exact ranOn, by rw [run_bind, otherRan]; exact otherRanOn⟩

theorem get {next otherNext : Store → Eval α}
    (goesOn : ReadAlike environment s t (next s) (otherNext t)) :
    ReadAlike environment s t (get >>= next) (get >>= otherNext) :=
  goesOn

theorem shown (text : Option String) : ReadAlike environment s t (shown text) (shown text) := by
  cases text with
  | none => exact ⟨.error (.host .tooManyDigits), rfl, rfl⟩
  | some text => exact pure text

theorem mapM {f other : α → Eval β} {relocate : α → α} {items : List α}
    (each : ∀ a ∈ items, ReadAlike environment s t (f a) (other (relocate a))) :
    ReadAlike environment s t (items.mapM f) ((items.map relocate).mapM other) := by
  induction items with
  | nil => exact pure []
  | cons a items ih =>
    rw [List.map_cons, List.mapM_cons, List.mapM_cons]
    refine (each a (by simp)).bind fun b => ?_
    exact (ih fun a among => each a (by simp [among])).bind fun bs => pure (b :: bs)

end ReadAlike

theorem readAlike_scalarText (relocated : Relocated r s t) {v : Value} (within : v.Within s.scope) :
    ReadAlike environment s t (scalarText v) (scalarText (v.relocate r)) := by
  cases v with
  | number n mark => exact .shown n.text?
  | document id =>
    refine ⟨.ok (s.document id).describe, by rw [scalarText, run_bind, run_document]; rfl, ?_⟩
    rw [Value.relocate, scalarText, run_bind, run_document, (relocated.documents id within).2]
    rfl
  | _ => exact .pure _

mutual

theorem readAlike_describeWith {describeView describeOther : ViewId → Eval String}
    (relocated : Relocated r s t)
    (views : ∀ id < s.views.size,
      ReadAlike environment s t (describeView id) (describeOther (r.view id))) :
    ∀ {v : Value}, v.Within s.scope →
      ReadAlike environment s t (describeWith describeView v)
        (describeWith describeOther (v.relocate r))
  | .list items _, within => by
    rw [Value.Within] at within
    rw [Value.relocate, describeWith, describeWith]
    exact (readAlike_describeItems relocated views within).bind fun _ => .pure _
  | .dict entries _, within => by
    rw [Value.Within] at within
    rw [Value.relocate, describeWith, describeWith]
    exact (readAlike_describeEntries relocated views within).bind fun _ => .pure _
  | .listView id, within => by
    rw [Value.relocate, describeWith, describeWith]
    exact views id within
  | .mappingView id, within => by
    rw [Value.relocate, describeWith, describeWith]
    exact views id within
  | .object _ _ _, _ | .function _ _ _ _, _ => by
    rw [Value.relocate]
    simp only [describeWith]
    exact .pure _
  | .null, within | .absent, within | .bool _, within | .number _ _, within | .text _ _, within
  | .date _ _, within | .dateTime _ _, within | .document _, within => by
    have alike := @readAlike_scalarText r environment s t relocated _ within
    simpa only [Value.relocate, describeWith] using alike

theorem readAlike_describeItems {describeView describeOther : ViewId → Eval String}
    (relocated : Relocated r s t)
    (views : ∀ id < s.views.size,
      ReadAlike environment s t (describeView id) (describeOther (r.view id))) :
    ∀ {items : List Value}, Value.ItemsWithin s.scope items →
      ReadAlike environment s t (describeItems describeView items)
        (describeItems describeOther (Value.relocateItems r items))
  | [], _ => .pure []
  | v :: items, within => by
    rw [Value.relocateItems, describeItems, describeItems]
    exact (readAlike_describeWith relocated views within.1).bind fun _ =>
      (readAlike_describeItems relocated views within.2).bind fun _ => .pure _

theorem readAlike_describeEntries {describeView describeOther : ViewId → Eval String}
    (relocated : Relocated r s t)
    (views : ∀ id < s.views.size,
      ReadAlike environment s t (describeView id) (describeOther (r.view id))) :
    ∀ {entries : List (String × Value)}, Value.EntriesWithin s.scope entries →
      ReadAlike environment s t (describeEntries describeView entries)
        (describeEntries describeOther (Value.relocateEntries r entries))
  | [], _ => .pure []
  | (key, v) :: entries, within => by
    rw [Value.relocateEntries, describeEntries, describeEntries]
    exact (readAlike_describeWith relocated views within.1).bind fun _ =>
      (readAlike_describeEntries relocated views within.2).bind fun _ => .pure _

end

theorem readAlike_describeSlot {describeView describeOther : ViewId → Eval String}
    (relocated : Relocated r s t)
    (views : ∀ id < s.views.size,
      ReadAlike environment s t (describeView id) (describeOther (r.view id)))
    {slot : Slot} (within : slot.Within s.scope) :
    ReadAlike environment s t (describeSlot describeView slot)
      (describeSlot describeOther (slot.relocate r)) := by
  cases slot with
  | node n => exact .shown n.describe?
  | value v => exact readAlike_describeWith relocated views within

/-- Each depth that suffices for the views that are not shown yet leads to the same text. -/
theorem readAlike_describeView (relocated : Relocated r s t) {depth other : Nat}
    {around : List ViewId} {id : ViewId} (present : id < s.views.size) (distinct : around.Nodup)
    (known : ∀ id ∈ around, id < s.views.size) (enough : s.views.size < depth + around.length)
    (otherEnough : s.views.size < other + around.length) :
    ReadAlike environment s t (describeView depth around id)
      (describeView other (around.map r.view) (r.view id)) := by
  induction depth generalizing other around id with
  | zero =>
    have few := length_le_of_nodup distinct known
    omega
  | succ depth ih =>
    cases other with
    | zero =>
      have few := length_le_of_nodup distinct known
      omega
    | succ other =>
      have inside : (around.map r.view).contains (r.view id) = around.contains id := by
        simp [List.mem_map_of_injective r.view_injective]
      unfold describeView
      refine .get ?_
      rw [(relocated.views id present).2]
      by_cases isAround : around.contains id
      · rw [inside]
        cases s.view id <;> simp only [View.relocate, isAround, if_true] <;> exact .pure _
      · have fresh : id ∉ around := by simpa using isAround
        have views (next : ViewId) (there : next < s.views.size) :
            ReadAlike environment s t (describeView depth (id :: around) next)
              (describeView other ((id :: around).map r.view) (r.view next)) :=
          ih there (List.nodup_cons.mpr ⟨fresh, distinct⟩) (List.forall_mem_cons.mpr ⟨present, known⟩)
            (by simp only [List.length_cons]; omega) (by simp only [List.length_cons]; omega)
        have within := relocated.viewsWithin id present
        cases isView : s.view id with
        | list owner slots =>
          rw [isView] at within
          simp only [View.relocate, inside, isAround]
          exact (ReadAlike.mapM fun slot among =>
            readAlike_describeSlot relocated views (within.2 slot among)).bind fun _ => .pure _
        | mapping owner entries =>
          rw [isView] at within
          simp only [View.relocate, inside, isAround]
          exact (ReadAlike.mapM fun entry among =>
            (readAlike_describeSlot relocated views (within.2 entry among).2).bind
              fun _ => .pure _).bind fun _ => .pure _

/-- There are no fewer views where the others are found. -/
theorem views_size_le (relocated : Relocated r s t) : s.views.size ≤ t.views.size := by
  have distinct : ((List.range s.views.size).map r.view).Nodup :=
    List.nodup_range.map r.view_injective
  have few := length_le_of_nodup distinct fun id among => by
    obtain ⟨other, present, rfl⟩ := List.mem_map.mp among
    exact (relocated.views other (List.mem_range.mp present)).1
  simpa using few

theorem alike_describe {scope : Scope} {v : Value} (within : v.Within scope) :
    Alike r .plain scope (describe v) (describe (v.relocate r)) := by
  intro environment s t outside relocated reached
  have views (id : ViewId) (present : id < s.views.size) :
      ReadAlike environment s t (describeView (s.views.size + 2) [] id)
        (describeView (t.views.size + 2) [] (r.view id)) :=
    readAlike_describeView relocated present List.nodup_nil (by simp) (by simp) (by
      have := views_size_le relocated
      simp only [List.length_nil]
      omega)
  obtain ⟨result, ran, otherRan⟩ : ReadAlike environment s t (describe v) (describe (v.relocate r)) :=
    .get (readAlike_describeWith relocated views (within.mono reached))
  refine ⟨result, s, t, ran, ?_, relocated, le_rfl, fun _ _ => trivial⟩
  rw [otherRan]
  cases result <;> rfl

variable {scope : Scope}

theorem alike_scalarText {v : Value} (within : v.Within scope) :
    Alike r .plain scope (scalarText v) (scalarText (v.relocate r)) := by
  intro environment s t outside relocated reached
  obtain ⟨result, ran, otherRan⟩ :=
    @readAlike_scalarText r environment s t relocated v (within.mono reached)
  refine ⟨result, s, t, ran, ?_, relocated, le_rfl, fun _ _ => trivial⟩
  rw [otherRan]
  cases result <;> rfl

mutual

theorem alike_interpolated : ∀ {v : Value}, v.Within scope →
    Alike r .plain scope (interpolated v) (interpolated (v.relocate r))
  | .list items _, within => by
    rw [Value.Within] at within
    rw [Value.relocate, interpolated, interpolated]
    exact (alike_interpolatedItems within).bind fun _ texts _ => .plain _
  | .dict entries _, within => by
    rw [Value.Within] at within
    rw [Value.relocate, interpolated, interpolated]
    exact (alike_interpolatedEntries within).bind fun _ texts _ => .plain _
  | .bool b, _ | .text s _, _ | .date d _, _ | .dateTime t _, _ => .plain _
  | .null, within | .absent, within | .number _ _, within | .object _ _ _, within
  | .function _ _ _ _, within | .listView _, within | .mappingView _, within
  | .document _, within => by
    have alike := @alike_scalarText r scope _ within
    simpa only [Value.relocate, interpolated] using alike

theorem alike_interpolatedItems : ∀ {items : List Value}, Value.ItemsWithin scope items →
    Alike r .plain scope (interpolatedItems items) (interpolatedItems (Value.relocateItems r items))
  | [], _ => .plain _
  | v :: items, within => by
    rw [Value.relocateItems, interpolatedItems, interpolatedItems]
    exact (alike_interpolated within.1).bind fun le _ _ =>
      ((alike_interpolatedItems within.2).mono le).bind fun _ _ _ => .plain _

theorem alike_interpolatedEntries : ∀ {entries : List (String × Value)},
    Value.EntriesWithin scope entries →
      Alike r .plain scope (interpolatedEntries entries)
        (interpolatedEntries (Value.relocateEntries r entries))
  | [], _ => .plain _
  | (key, v) :: entries, within => by
    rw [Value.relocateEntries, interpolatedEntries, interpolatedEntries]
    exact (alike_interpolated within.1).bind fun le _ _ =>
      ((alike_interpolatedEntries within.2).mono le).bind fun _ _ _ =>
        .plain _

end

end LazyConfig.Evaluation
