import LazyConfig.Document.Access
import LazyConfig.Proofs.Evaluation.Describe
import LazyConfig.Proofs.Evaluation.Steps

/-!
# What evaluations change

Every change that an evaluation makes to the store is one of a few. Views are added, and what a
document keeps of its values comes and goes. A slot of a list is only filled if it did not hold a
value when the evaluation of its element began. A document is only ever added for an included file
that is not on the chain of the including document, and what has been marked as pending or as being
converted is unmarked when its evaluation ends.

Whatever holds for each of these changes holds for every evaluation, whether it fails or not.
-/

namespace LazyConfig

open Eval
open Evaluation

/-- The document with the reference pending, too. -/
def Document.resolving (d : Document) (p : Pending) : Document :=
  { d with pending := p :: d.pending }

/-- The document with the reference no longer pending. -/
def Document.resolved (d : Document) (site : Site) : Document :=
  { d with pending := d.pending.filter (·.site ≠ site) }

/-- The document with the text being converted, too. -/
def Document.converts (d : Document) (text : String) : Document :=
  { d with converting := text :: d.converting }

/-- The document with the text no longer being converted. -/
def Document.converted (d : Document) (text : String) : Document :=
  { d with converting := d.converting.filter (· ≠ text) }

/-- A document without data that is included by another one. -/
def Document.including (outer : Document) (id : DocumentId) (files : FileTree) (name : String) :
    Document :=
  let inner : Document := { parent := some id, cache := outer.cache.map fun _ => [] }
  inner.atFile files outer.includeChain name

/-- Evaluations take a store to another one. -/
inductive Evolves (files : FileTree) : Store → Store → Prop where
  | refl (s : Store) : Evolves files s s
  | trans {s middle left : Store} (first : Evolves files s middle)
      (second : Evolves files middle left) : Evolves files s left
  | counted (s : Store) : Evolves files s s.fresh.2
  | view (s : Store) (v : View) : Evolves files s (s.addView v).2
  /-- An element is evaluated that has not been evaluated yet. Its slot may have been filled
  meanwhile. -/
  | filled {s left : Store} (id : ViewId) (index : Nat) (v : Value)
      (unread : (s.view id).value? index = none) (inner : Evolves files s left) :
      Evolves files s (left.fill id index v)
  /-- The data of a document and what it keeps of them. -/
  | data (s : Store) (id : DocumentId) (root : Option ViewId)
      (cache : Option (List (String × Value))) (views : List (Site × ViewId)) :
      Evolves files s (s.setDocument id { s.document id with root, cache, views })
  /-- A file is included that is not on the chain. -/
  | included {s : Store} (id : DocumentId) {name : String} {place : Place}
      (isFile : files.isFile name) (located : files.resolve? name = some place)
      (outside : place.text ∉ (s.document id).includeChain) :
      Evolves files s (s.addDocument ((s.document id).including id files name)).2
  /-- A reference is resolved that is not pending yet. -/
  | resolving {s left : Store} (id : DocumentId) (p : Pending)
      (new : ∀ other ∈ (s.document id).pending, other.site ≠ p.site)
      (inner : Evolves files (s.setDocument id ((s.document id).resolving p)) left) :
      Evolves files s (left.setDocument id ((left.document id).resolved p.site))
  /-- A text is converted that is not being converted yet. -/
  | converting {s left : Store} (id : DocumentId) (text : String)
      (new : text ∉ (s.document id).converting)
      (inner : Evolves files (s.setDocument id ((s.document id).converts text)) left) :
      Evolves files s (left.setDocument id ((left.document id).converted text))

/-- No document goes away. -/
theorem Evolves.size_le {files : FileTree} {s left : Store} (evolves : Evolves files s left) :
    s.documents.size ≤ left.documents.size := by
  induction evolves with
  | refl | counted | view => exact le_rfl
  | trans _ _ first second => exact first.trans second
  | filled _ _ _ _ _ ih => exact ih
  | data => simp [Store.setDocument]
  | included => simp [Store.addDocument]
  | resolving _ _ _ _ ih => simpa [Store.setDocument] using ih
  | converting _ _ _ _ ih => simpa [Store.setDocument] using ih

/-- No number is given out twice. -/
theorem Evolves.serial_le {files : FileTree} {s left : Store} (evolves : Evolves files s left) :
    s.serial ≤ left.serial := by
  induction evolves with
  | refl | view | data | included => exact le_rfl
  | trans _ _ first second => exact first.trans second
  | counted s => exact Nat.le_succ s.serial
  | filled _ _ _ _ _ ih => exact ih
  | resolving _ _ _ _ ih => exact ih
  | converting _ _ _ _ ih => exact ih

namespace Eval

/-- All changes that the evaluation makes are among those of `Evolves`. -/
def Evolving {α : Type} (e : Eval α) : Prop :=
  ∀ environment s, Evolves environment.world.files s (e.run environment s).2

variable {α β : Type}

namespace Evolving

theorem pure (a : α) : Evolving (pure a : Eval α) := fun _ s => .refl s

theorem throw (failure : Failure) : Evolving (throw failure : Eval α) := fun _ s => .refl s

theorem fail (cause : Cause) (location : Option Location) :
    Evolving (fail cause location : Eval α) := fun _ s => .refl s

theorem failHost (fault : HostFault) : Evolving (failHost fault : Eval α) := fun _ s => .refl s

theorem get : Evolving (get : Eval Store) := fun _ s => .refl s

theorem read : Evolving (read : Eval Environment) := fun _ s => .refl s

theorem bind {first : Eval α} {next : α → Eval β} (evolving : Evolving first)
    (goesOn : ∀ a, Evolving (next a)) : Evolving (first >>= next) := by
  intro environment s
  have before := evolving environment s
  rw [run_bind]
  rcases ran : first.run environment s with ⟨failure | a, middle⟩
  · rw [ran] at before
    exact before
  · rw [ran] at before
    exact before.trans (goesOn a environment middle)

theorem map {e : Eval α} (f : α → β) (evolving : Evolving e) : Evolving (f <$> e) := by
  rw [map_eq_pure_bind]
  exact evolving.bind fun a => .pure (f a)

theorem tryCatch {body : Eval α} {handler : Failure → Eval α} (evolving : Evolving body)
    (handled : ∀ failure, Evolving (handler failure)) : Evolving (tryCatch body handler) := by
  intro environment s
  have before := evolving environment s
  rw [run_tryCatch]
  rcases ran : body.run environment s with ⟨failure | a, middle⟩
  · rw [ran] at before
    exact before.trans (handled failure environment middle)
  · rw [ran] at before
    exact before

theorem mapM {f : α → Eval β} (each : ∀ a, Evolving (f a)) (items : List α) :
    Evolving (items.mapM f) := by
  induction items with
  | nil => exact .pure []
  | cons a items ih =>
    rw [List.mapM_cons]
    exact (each a).bind fun b => ih.bind fun bs => .pure (b :: bs)

theorem foldlM {f : β → α → Eval β} (each : ∀ b a, Evolving (f b a)) (items : List α) (b : β) :
    Evolving (items.foldlM f b) := by
  induction items generalizing b with
  | nil => exact .pure b
  | cons a items ih =>
    rw [List.foldlM_cons]
    exact (each b a).bind ih

theorem optionMapM {f : α → Eval β} (each : ∀ a, Evolving (f a)) (item : Option α) :
    Evolving (item.mapM f) := by
  cases item with
  | none => exact .pure none
  | some a => exact (each a).bind fun b => .pure (some b)

theorem shown (text : Option String) : Evolving (shown text) := by
  cases text with
  | none => exact .failHost _
  | some text => exact .pure text

theorem world : Evolving world := read.bind fun _ => .pure _

theorem settings : Evolving settings := read.bind fun _ => .pure _

theorem document (id : DocumentId) : Evolving (document id) := get.bind fun _ => .pure _

theorem viewOwner (id : ViewId) : Evolving (viewOwner id) := get.bind fun _ => .pure _

theorem slots (id : ViewId) : Evolving (slots id) := by
  refine get.bind fun s => ?_
  cases s.view id <;> exact .pure _

theorem entries (id : ViewId) : Evolving (entries id) := by
  refine get.bind fun s => ?_
  cases s.view id <;> exact .pure _

theorem fresh : Evolving fresh := fun _ s => .counted s

theorem freshMark : Evolving freshMark := fresh.bind fun _ => .pure _

theorem newNumber (n : Number) : Evolving (newNumber n) := freshMark.bind fun _ => .pure _

theorem newText (text : String) : Evolving (newText text) := freshMark.bind fun _ => .pure _

theorem joinedText (text : String) : Evolving (joinedText text) := freshMark.bind fun _ => .pure _

theorem newList (items : List Value) : Evolving (newList items) := freshMark.bind fun _ => .pure _

theorem newDict (entries : List (String × Value)) : Evolving (newDict entries) :=
  freshMark.bind fun _ => .pure _

theorem addView (v : View) : Evolving (addView v) := fun _ s => .view s v

/-- The value of an element that has not been evaluated is put into its slot. -/
theorem filled {e : Eval Value} (evolving : Evolving e) (environment : Environment) {s : Store}
    {id : ViewId} {index : Nat} (unread : (s.view id).value? index = none) (result : Value → α) :
    Evolves environment.world.files s ((do
      let v ← e
      setSlot id index v
      return result v : Eval α).run environment s).2 := by
  have before := evolving environment s
  rw [run_bind]
  rcases ran : e.run environment s with ⟨failure | v, middle⟩
  · rw [ran] at before
    exact before
  · rw [ran] at before
    dsimp only
    rw [run_bind, run_fill]
    exact before.filled id index v unread

end Evolving

end Eval

/-! ### Showing values -/

namespace Evaluation

open Eval.Evolving (tryCatch mapM)
open Inclusion (includedFile included_eq located?)
open Conversion (converting settle convert_eq run_converting)
open Resolution (stride positions sliced_eq entryOf walk follow_eq reference_eq run_resolve)

theorem evolving_describe (v : Value) : (describe v).Evolving := by
  intro environment s
  rcases @shows_describe environment s v with ⟨text, ran⟩ | ran
  · rw [ran]
    exact .refl s
  · rw [ran]
    exact .refl s

theorem evolving_scalarText (v : Value) : (scalarText v).Evolving := by
  cases v with
  | number n mark => exact .shown n.text?
  | document id => exact (Evolving.document id).bind fun _ => .pure _
  | _ => exact .pure _

mutual

theorem evolving_interpolated : ∀ v : Value, (interpolated v).Evolving
  | .list items _ => by
    rw [interpolated]
    exact (evolving_interpolatedItems items).bind fun _ => .pure _
  | .dict entries _ => by
    rw [interpolated]
    exact (evolving_interpolatedEntries entries).bind fun _ => .pure _
  | .bool b | .text s _ | .date d _ | .dateTime t _ => .pure _
  | .null | .absent | .number _ _ | .object _ _ _ | .function _ _ _ _ | .listView _
  | .mappingView _ | .document _ => by
    simp only [interpolated]
    exact evolving_scalarText _

theorem evolving_interpolatedItems : ∀ items : List Value, (interpolatedItems items).Evolving
  | [] => .pure []
  | v :: items => by
    rw [interpolatedItems]
    exact (evolving_interpolated v).bind fun _ =>
      (evolving_interpolatedItems items).bind fun _ => .pure _

theorem evolving_interpolatedEntries :
    ∀ entries : List (String × Value), (interpolatedEntries entries).Evolving
  | [] => .pure []
  | (_, v) :: entries => by
    rw [interpolatedEntries]
    exact (evolving_interpolated v).bind fun _ =>
      (evolving_interpolatedEntries entries).bind fun _ => .pure _

end

/-! ### Views -/

mutual

theorem evolving_toView (owner : DocumentId) : ∀ v : Value, (toView owner v).Evolving
  | .list items _ => by
    rw [toView]
    exact (evolving_toSlots owner items).bind fun _ => (Evolving.addView _).bind fun _ => .pure _
  | .dict entries _ => by
    rw [toView]
    exact (evolving_toEntrySlots owner entries).bind fun _ =>
      (Evolving.addView _).bind fun _ => .pure _
  | .null | .absent | .bool _ | .number _ _ | .text _ _ | .date _ _ | .dateTime _ _
  | .object _ _ _ | .function _ _ _ _ | .listView _ | .mappingView _ | .document _ => .pure _

theorem evolving_toSlots (owner : DocumentId) :
    ∀ items : List Value, (toSlots owner items).Evolving
  | [] => .pure []
  | v :: items => by
    rw [toSlots]
    exact (evolving_toView owner v).bind fun _ =>
      (evolving_toSlots owner items).bind fun _ => .pure _

theorem evolving_toEntrySlots (owner : DocumentId) :
    ∀ entries : List (String × Value), (toEntrySlots owner entries).Evolving
  | [] => .pure []
  | (_, v) :: entries => by
    rw [toEntrySlots]
    exact (evolving_toView owner v).bind fun _ =>
      (evolving_toEntrySlots owner entries).bind fun _ => .pure _

end

/-- Copying carries along the marks that have been copied. -/
private def Copying {α : Type} (c : StateT (List (Mark × Mark)) Eval α) : Prop :=
  ∀ marks, (c.run marks).Evolving

private theorem Copying.pure {α : Type} (a : α) : Copying (Pure.pure a) := fun marks => .pure (a, marks)

private theorem Copying.bind {α β : Type} {first : StateT (List (Mark × Mark)) Eval α}
    {next : α → StateT (List (Mark × Mark)) Eval β} (copying : Copying first)
    (goesOn : ∀ a, Copying (next a)) : Copying (first >>= next) := by
  intro marks
  rw [StateT.run_bind]
  exact (copying marks).bind fun a => goesOn a.1 a.2

private theorem copying_copyMark (mark : Mark) : Copying (copyMark mark) := by
  refine Copying.bind (fun marks => .pure (marks, marks)) fun marks => ?_
  split
  · exact .pure _
  · refine Copying.bind (fun marks => ?_) fun copied =>
      Copying.bind (fun marks => .pure ((), _)) fun _ => .pure copied
    exact Evolving.freshMark.bind fun copied => .pure (copied, marks)

mutual

private theorem copying_copyWith : ∀ v : Value, Copying (copyWith v)
  | .list items mark => by
    rw [copyWith]
    exact (copying_copyItems items).bind fun _ => (copying_copyMark mark).bind fun _ => .pure _
  | .dict entries mark => by
    rw [copyWith]
    exact (copying_copyEntries entries).bind fun _ =>
      (copying_copyMark mark).bind fun _ => .pure _
  | .date d mark => (copying_copyMark mark).bind fun _ => .pure _
  | .dateTime t mark => (copying_copyMark mark).bind fun _ => .pure _
  | .object name attributes mark => by
    rw [copyWith]
    exact (copying_copyEntries attributes).bind fun _ =>
      (copying_copyMark mark).bind fun _ => .pure _
  | .null | .absent | .bool _ | .number _ _ | .text _ _ | .function _ _ _ _ | .listView _
  | .mappingView _ | .document _ => .pure _

private theorem copying_copyItems : ∀ items : List Value, Copying (copyItems items)
  | [] => .pure []
  | v :: items => by
    rw [copyItems]
    exact (copying_copyWith v).bind fun _ => (copying_copyItems items).bind fun _ => .pure _

private theorem copying_copyEntries :
    ∀ entries : List (String × Value), Copying (copyEntries entries)
  | [] => .pure []
  | (_, v) :: entries => by
    rw [copyEntries]
    exact (copying_copyWith v).bind fun _ => (copying_copyEntries entries).bind fun _ => .pure _

end

theorem evolving_copy (v : Value) : (copy v).Evolving :=
  (copying_copyWith v []).bind fun _ => .pure _

mutual

theorem evolving_mergeValue (base : Option Value) :
    ∀ update : Value, (Value.mergeValue copy base update).Evolving
  | .dict updates mark => by
    unfold Value.mergeValue
    split
    · refine (evolving_copy _).bind fun copied => ?_
      split
      · exact (evolving_mergeEntries _ updates).bind fun _ => .pure _
      · exact .pure _
    · exact evolving_copy _
  | .null | .absent | .bool _ | .number _ _ | .text _ _ | .date _ _ | .dateTime _ _ | .list _ _
  | .object _ _ _ | .function _ _ _ _ | .listView _ | .mappingView _ | .document _ => by
    simp only [Value.mergeValue]
    exact evolving_copy _

theorem evolving_mergeEntries (result : List (String × Value)) :
    ∀ updates : List (String × Value), (Value.mergeEntries copy result updates).Evolving
  | [] => .pure result
  | (_, update) :: updates => by
    rw [Value.mergeEntries]
    exact (evolving_mergeValue _ update).bind fun _ => evolving_mergeEntries _ updates

end

theorem evolving_mergedView (owner : DocumentId) (base update : Value) :
    (mergedView owner base update).Evolving :=
  (evolving_mergeValue _ update).bind fun merged => evolving_toView owner merged

theorem evolving_keep (id : DocumentId) (root : Document → Option ViewId)
    (cache : Document → Option (List (String × Value)))
    (views : Document → List (Site × ViewId)) :
    (modifyDocument id fun d =>
      { d with root := root d, cache := cache d, views := views d }).Evolving :=
  fun _ s => .data s id _ _ _

theorem evolving_sharedView (id : DocumentId) (span : Span) {make : Eval View}
    (made : make.Evolving) : (sharedView id span make).Evolving := by
  refine (Evolving.document id).bind fun d => ?_
  split
  · exact .pure _
  · exact made.bind fun v => (Evolving.addView v).bind fun view =>
      (evolving_keep id (·.root) (·.cache) _).bind fun _ => .pure view

theorem evolving_mappingView (id : DocumentId) (entries : List (Token × Node)) (span : Span) :
    (mappingView id entries span).Evolving := by
  refine evolving_sharedView id span (Evolving.settings.bind fun settings => ?_)
  split
  · exact .pure _
  · exact .throw _

theorem evolving_listView (id : DocumentId) (elements : List Node) (span : Span) :
    (listView id elements span).Evolving :=
  evolving_sharedView id span (.pure _)

theorem evolving_hasKey (id : ViewId) (key : String) : (hasKey id key).Evolving :=
  (Evolving.entries id).bind fun _ => .pure _

theorem evolving_keys (id : ViewId) : (keys id).Evolving :=
  (Evolving.entries id).bind fun _ => .pure _

section

variable {m : Machine} (asked : ∀ request, (m.ask request).Evolving)

include asked

theorem evolving_evaluate (id : DocumentId) (node : Node) : (m.evaluate id node).Evolving :=
  asked _

theorem evolving_slotValue (owner : DocumentId) (slot : Slot) :
    (slotValue m owner slot).Evolving := by
  cases slot with
  | node node => exact asked _
  | value v => exact .pure v

theorem evolving_element (id : ViewId) (index : Nat) : (element m id index).Evolving := by
  intro environment s
  rw [element, run_bind, run_viewSlots]
  dsimp only
  cases isSlot : (s.view id).slots[index]? with
  | none => exact .refl s
  | some slot =>
    dsimp only
    rw [run_bind, run_viewOwner]
    cases slot with
    | node node =>
      have unread : (s.view id).value? index = none := by simp only [View.value?, isSlot]
      exact (evolving_slotValue asked _ _).filled environment unread fun v => v
    | value v =>
      -- the slot is filled with the value that it holds
      have holds : (s.view id).value? index = some v := by simp only [View.value?, isSlot]
      have same : s.fill id index v = s := by
        rw [Store.fill, View.fill_of_value? holds, Store.setView_view]
      simp only [slotValue, run_bind, run_pure, run_fill, same]
      exact .refl s

omit asked in
theorem evolving_iterating {α : Type} {body : Eval α} (evolving : body.Evolving) :
    (iterating body).Evolving := by
  refine evolving.tryCatch fun failure => ?_
  split
  · exact .failHost _
  · exact .throw _

theorem evolving_elements (id : ViewId) : (elements m id).Evolving :=
  (Evolving.slots id).bind fun _ =>
    mapM (fun index => evolving_iterating (evolving_element asked id index)) _

theorem evolving_entryValue? (id : ViewId) (key : String) : (entryValue? m id key).Evolving := by
  refine (Evolving.entries id).bind fun entries => ?_
  split
  · exact .pure none
  · exact (Evolving.viewOwner id).bind fun owner =>
      (evolving_slotValue asked owner _).bind fun _ => .pure _

theorem evolving_asList (id : ViewId) : (asList m id).Evolving := by
  refine (Evolving.slots id).bind fun slots => (mapM (fun index => ?_) _).bind fun items =>
    .newList items
  exact (evolving_iterating (evolving_element asked id index)).bind fun _ => asked _

theorem evolving_asDict (id : ViewId) : (asDict m id).Evolving := by
  refine (Evolving.viewOwner id).bind fun owner => (Evolving.entries id).bind fun entries =>
    (mapM (fun entry => ?_) _).bind fun items => .newDict items
  exact (evolving_iterating (evolving_slotValue asked owner entry.2)).bind fun _ =>
    (asked _).bind fun _ => .pure _

theorem evolving_documentDict (id : DocumentId) : (documentDict m id).Evolving := by
  refine (Evolving.document id).bind fun d => ?_
  split
  · exact evolving_asDict asked _
  · exact .fail _ _

theorem evolving_materializeStep (v : Value) : (materializeStep m v).Evolving := by
  cases v with
  | listView id => exact evolving_asList asked id
  | mappingView id => exact evolving_asDict asked id
  | document id => exact evolving_documentDict asked id
  | _ => exact .pure _

theorem evolving_unwrap (v : Value) : (unwrap m v).Evolving := by
  cases v with
  | listView id => exact evolving_asList asked id
  | mappingView id => exact evolving_asDict asked id
  | _ => exact .pure _

/-! ### Operators -/

omit asked in
theorem evolving_onNumbers (f : Number → Number → Except Arithmetic.Fault Number)
    (left right : Value) : (onNumbers f left right).Evolving := by
  unfold onNumbers
  split
  · split
    · exact (Evolving.newNumber _).bind fun _ => .pure _
    · exact .pure _
  · exact .pure _

omit asked in
theorem evolving_onInts (f : Int → Int → Except Arithmetic.Fault Int) (left right : Value) :
    (onInts f left right).Evolving := by
  unfold onInts
  split
  · split
    · exact (Evolving.newNumber _).bind fun _ => .pure _
    · exact .pure _
  · exact .pure _

variable (owner : DocumentId)

theorem evolving_mergeViews (left right : ViewId) : (mergeViews m owner left right).Evolving :=
  (evolving_asDict asked left).bind fun base => (evolving_asDict asked right).bind fun update =>
    (evolving_mergedView owner base update).bind fun _ => .pure _

theorem evolving_add (left right : Value) : (add m owner left right).Evolving := by
  unfold add
  split
  · exact evolving_mergeViews asked owner _ _
  · exact (evolving_elements asked _).bind fun _ => (evolving_elements asked _).bind fun _ =>
      (Evolving.addView _).bind fun _ => .pure _
  · exact .pure _
  · exact .pure _
  · exact (Evolving.joinedText _).bind fun _ => .pure _
  · exact evolving_onNumbers _ left right

theorem evolving_withoutKeys (left right : ViewId) : (withoutKeys m owner left right).Evolving := by
  refine (evolving_asDict asked left).bind fun v => ?_
  split
  · exact (evolving_keys right).bind fun _ => (evolving_toView owner _).bind fun _ => .pure _
  · exact .pure _

theorem evolving_subtract (left right : Value) : (subtract m owner left right).Evolving := by
  unfold subtract
  split
  · exact evolving_withoutKeys asked owner _ _
  · exact evolving_onNumbers _ left right

theorem evolving_bitOr (left right : Value) : (bitOr m owner left right).Evolving := by
  unfold bitOr
  split
  · exact evolving_mergeViews asked owner _ _
  · exact evolving_onInts _ left right

theorem evolving_order (op : OrderOp) (left right : Value) : (order m op left right).Evolving := by
  unfold order
  split
  · exact .pure _
  · refine (asked (.materialize left)).bind fun a => (asked (.materialize right)).bind fun b => ?_
    split <;> exact .pure _

theorem evolving_equal (left right : Value) : (equal m left right).Evolving :=
  (asked (.materialize left)).bind fun _ => (asked (.materialize right)).bind fun _ => .pure _

theorem evolving_isIn (left right : Value) : (isIn m left right).Evolving := by
  unfold isIn
  split
  · refine (asked (.materialize left)).bind fun v => (evolving_asList asked _).bind fun list => ?_
    split <;> exact .pure _
  · exact (evolving_hasKey _ _).bind fun _ => .pure _
  · refine (Evolving.document _).bind fun d => ?_
    split
    · exact (evolving_hasKey _ _).bind fun _ => .pure _
    · exact .pure _
  · exact .pure _
  · exact .pure _

theorem evolving_apply (op : Syntax.InfixOp) (left right : Value) :
    (apply m owner op left right).Evolving := by
  cases op with
  | add => exact evolving_add asked owner left right
  | subtract => exact evolving_subtract asked owner left right
  | bitOr => exact evolving_bitOr asked owner left right
  | multiply | divide | power => exact evolving_onNumbers _ left right
  | intDivide | modulo | shiftLeft | shiftRight | bitAnd | bitXor =>
    exact evolving_onInts _ left right
  | less | lessEqual | greater | greaterEqual => exact evolving_order asked _ left right
  | equal => exact evolving_equal asked left right
  | unequal | altUnequal => exact (evolving_equal asked left right).bind fun _ => .pure _
  | isIn => exact evolving_isIn asked left right
  | notIn => exact (evolving_isIn asked left right).bind fun _ => .pure _
  | is | isNot | and | or => exact .pure _

omit asked in
theorem evolving_refuse (failure : Failure) : (refuse failure).Evolving := by
  unfold refuse
  split
  · split
    · exact .pure _
    · exact .throw _
  · exact .throw _

theorem evolving_outcome (op : Syntax.InfixOp) (left right : Value) :
    (outcome m owner op left right).Evolving := by
  rw [outcome_eq]
  exact (evolving_apply asked owner op left right).tryCatch evolving_refuse

theorem evolving_applyInfix (op : Syntax.InfixOp) (left right : Value) (location : Location) :
    (applyInfix m owner op left right location).Evolving := by
  refine (evolving_describe left).bind fun a => (evolving_describe right).bind fun b =>
    (evolving_outcome asked owner op left right).bind fun result => ?_
  cases result with
  | value v => exact .pure v
  | inapplicable => exact .fail _ _
  | refused reason => exact .fail _ _

omit asked in
theorem evolving_applyPrefix (op : Syntax.PrefixOp) (operand : Value) (location : Location) :
    (applyPrefix op operand location).Evolving := by
  unfold applyPrefix
  split
  · exact .newNumber _
  · exact .pure _
  · exact .newNumber _
  · exact .pure _
  · exact (evolving_describe operand).bind fun _ => .fail _ _

/-! ### Paths -/

omit asked in
theorem evolving_sourceText (path : Node) : (sourceText path).Evolving := by
  unfold sourceText
  split
  · exact .pure _
  · exact .failHost _
  · exact .failHost _
  · exact .failHost _
  · exact .fail _ _
  · exact .fail _ _

theorem evolving_bound (evaluator : DocumentId) (node : Node) :
    (bound m evaluator node).Evolving := by
  refine (evolving_evaluate asked evaluator node).bind fun v => ?_
  split
  · exact .pure _
  · exact (evolving_describe _).bind fun _ => .fail _ _

theorem evolving_stride (evaluator : DocumentId) (bounds : Syntax.Bounds Node) :
    (stride m evaluator bounds).Evolving := by
  unfold stride
  split
  · exact .pure _
  · exact evolving_bound asked evaluator _

theorem evolving_positions (evaluator : DocumentId) (size : Nat) (bounds : Syntax.Bounds Node)
    (step : Int) : (positions m evaluator size bounds step).Evolving := by
  unfold positions
  split
  · exact .fail _ _
  split
  · exact .pure _
  · exact (Evolving.optionMapM (evolving_bound asked evaluator) _).bind fun _ =>
      (Evolving.optionMapM (evolving_bound asked evaluator) _).bind fun _ => .pure _

theorem evolving_sliced (evaluator : DocumentId) (id : ViewId) (bounds : Syntax.Bounds Node) :
    (sliced m evaluator id bounds).Evolving := by
  rw [sliced_eq]
  exact (Evolving.slots id).bind fun slots => (Evolving.viewOwner id).bind fun owner =>
    (evolving_stride asked evaluator bounds).bind fun step =>
      (evolving_positions asked evaluator slots.length bounds step).bind fun selected =>
        (mapM (evolving_element asked id) selected).bind fun items =>
          (Evolving.addView _).bind fun _ => .pure _

theorem evolving_ready (evaluator : DocumentId) (step : Step) :
    (ready m evaluator step).Evolving := by
  cases step with
  | member name => exact (Evolving.newText name).bind fun _ => .pure _
  | index operand => exact (evolving_evaluate asked evaluator operand).bind fun _ => .pure _
  | operator _ operand => exact (evolving_evaluate asked evaluator operand).bind fun _ => .pure _
  | slice bounds => exact .pure _

theorem evolving_stepInto (evaluator : DocumentId) (id : ViewId) (key : String) :
    (stepInto m evaluator id key).Evolving := by
  refine (Evolving.entries id).bind fun entries => ?_
  split
  · exact .fail _ _
  · exact (evolving_slotValue asked evaluator _).bind fun _ => .pure _

theorem evolving_elementAt (id : ViewId) (index : Int) : (elementAt m id index).Evolving := by
  intro environment s
  rw [elementAt, run_bind, run_viewOwner]
  dsimp only
  rw [run_bind, run_viewSlots]
  dsimp only
  generalize (if -((s.view id).slots.length : Int) ≤ index ∧ index < 0
    then index + (s.view id).slots.length else index) = position
  by_cases negative : position < 0
  · rw [if_pos negative]
    exact (Evolving.shown _).bind (fun _ => .fail _ _) environment s
  rw [if_neg negative]
  cases isSlot : (s.view id).slots[position.toNat]? with
  | none => exact (Evolving.shown _).bind (fun _ => .fail _ _) environment s
  | some slot =>
    cases slot with
    | node node =>
      have unread : (s.view id).value? position.toNat = none := by
        simp only [View.value?, isSlot]
      exact (evolving_evaluate asked _ node).filled environment unread _
    | value v => exact .refl s

theorem evolving_keyed {id : Eval (DocumentId × ViewId)} (found : id.Evolving)
    (step : ReadyStep) : (keyed m id step).Evolving := by
  unfold keyed
  split
  · exact .fail _ _
  · exact found.bind fun _ => evolving_stepInto asked _ _ _
  · exact (evolving_describe _).bind fun _ => .fail _ _

theorem evolving_take (path : Node) (v : Value) (step : ReadyStep) :
    (take m path v step).Evolving := by
  unfold take
  split
  · exact evolving_keyed asked ((Evolving.viewOwner _).bind fun _ => .pure _) step
  · refine evolving_keyed asked ((Evolving.document _).bind fun d => ?_) step
    split
    · exact .pure _
    · exact .failHost _
  · refine (Evolving.viewOwner _).bind fun evaluator => ?_
    split
    · exact (evolving_sliced asked evaluator _ _).bind fun _ => .pure _
    · exact evolving_elementAt asked _ _
    · exact (evolving_describe _).bind fun _ => .fail _ _
  · split
    · exact .fail _ _
    · exact (evolving_sourceText path).bind fun _ => .fail _ _

theorem evolving_entryOf (id : DocumentId) (head : Token) : (entryOf m id head).Evolving := by
  refine (Evolving.document id).bind fun d => ?_
  split
  · exact .failHost _
  · refine (Evolving.viewOwner _).bind fun evaluator => (Evolving.entries _).bind fun entries => ?_
    split
    · exact .fail _ _
    · exact (evolving_slotValue asked evaluator _).bind fun _ => .pure _

theorem evolving_walk (path : Node) (reached : DocumentId × Value) :
    (walk m path reached).Evolving := by
  refine .foldlM (fun reached step => ?_) _ _
  exact (evolving_ready asked reached.1 step).bind fun ready => evolving_take asked path _ ready

theorem evolving_follow (id : DocumentId) (path : Node) : (follow m id path).Evolving := by
  rw [follow_eq]
  split
  · exact .fail _ _
  split
  · exact .fail _ _
  · exact (evolving_entryOf asked id _).bind fun first =>
      (evolving_walk asked path first).bind fun _ => .pure _

/-- A reference is pending only while it is resolved. -/
theorem evolving_reference (id : DocumentId) (path : Node) (sigil : Location) :
    (reference m id path sigil).Evolving := by
  intro environment s
  rw [reference_eq, run_bind, run_document]
  dsimp only
  split
  · have shown : ((s.document id).pending.mapM pendingText).Evolving :=
      mapM (fun p : Pending => (evolving_sourceText p.path).bind fun _ => .pure _) _
    exact (shown.bind fun texts => .fail (.circular (sortTexts texts)) path.start) environment s
  · rename_i notPending
    rw [run_resolve]
    refine .resolving id ⟨⟨path.source, sigil⟩, path⟩ ?_ (evolving_follow asked id path environment _)
    simpa using notPending

/-! ### Inclusion -/

omit asked in
theorem evolving_parsed (rule : Syntax.Parser Node) (text : Text.Decoded) :
    (parsed rule text).Evolving := by
  refine Evolving.fresh.bind fun source => ?_
  split
  · exact .throw _
  · split
    · exact .pure _
    · exact .throw _

omit asked in
theorem run_parsed_documents (rule : Syntax.Parser Node) (text : Text.Decoded)
    (environment : Environment) (s : Store) :
    ((parsed rule text).run environment s).2.documents = s.documents := by
  unfold parsed
  rw [run_bind, run_fresh]
  dsimp only
  split
  · rfl
  · split <;> rfl

omit asked in
/-- What is added is the document of a file that is not on the chain. -/
theorem evolves_nested {environment : Environment} {s : Store} {id : DocumentId} {found : String}
    {place : Place} (root : Node) (isFile : environment.world.files.isFile found)
    (located : environment.world.files.resolve? found = some place)
    (outside : place.text ∉ (s.document id).includeChain) :
    Evolves environment.world.files s ((nested id found root).run environment s).2 := by
  refine (Evolves.included id isFile located outside).trans ?_
  -- the rest only works on the document that has been added
  cases root with
  | list elements span =>
    have rest : (do
        modifyDocument s.documents.size fun d => { d with root := (s.document id).root }
        return .listView (← listView s.documents.size elements span) : Eval Value).Evolving :=
      (evolving_keep _ _ (·.cache) (·.views)).bind fun _ =>
        (evolving_listView _ _ _).bind fun _ => .pure _
    exact rest environment _
  | mapping entries span =>
    have rest : (do
        let root ← mappingView s.documents.size entries span
        modifyDocument s.documents.size fun d => { d with root := some root }
        return .document s.documents.size : Eval Value).Evolving :=
      (evolving_mappingView _ _ _).bind fun _ =>
        (evolving_keep _ _ (·.cache) (·.views)).bind fun _ => .pure _
    exact rest environment _
  | _ => exact .refl _

omit asked in
theorem isFile_of_read {files : FileTree} {encoding : Text.Encoding} {name : String}
    {text : Text.Decoded} (read : files.read encoding name = .ok text) : files.isFile name := by
  unfold FileTree.read at read
  unfold FileTree.isFile FileTree.resolve?
  cases leads : files.resolve name with
  | error fault =>
    rw [leads] at read
    cases read
  | ok place =>
    rw [leads] at read
    simp only [bind, Except.bind] at read
    split at read
    · rename_i content isContent
      simp [Except.toOption, isContent]
    · cases read

omit asked in
theorem located_of_located? {environment : Environment} {d : Document} {name found : String}
    {place : Place} (isLocated : located? d environment name = some (found, place)) :
    environment.world.files.resolve? found = some place := by
  obtain ⟨other, -, isFound⟩ := List.exists_of_findSome?_eq_some isLocated
  obtain ⟨there, leads, same⟩ := Option.map_eq_some_iff.mp isFound
  cases same
  exact leads

omit asked in
theorem evolving_includedFile (id : DocumentId) (name : String) (start : Location) :
    (includedFile id name start).Evolving := by
  intro environment s
  rw [includedFile, run_bind, Eval.run_document]
  dsimp only
  rw [run_bind, run_read]
  dsimp only
  cases isLocated : located? (s.document id) environment name with
  | none => exact .refl s
  | some pair =>
    obtain ⟨found, place⟩ := pair
    dsimp only
    split
    · exact .refl s
    · rename_i outside
      rw [run_bind, readFile]
      cases read : environment.world.files.read environment.settings.encoding found with
      | error fault =>
        simp only [run_bind, run_world, run_settings, read, run_failHost]
        exact .refl s
      | ok text =>
        simp only [run_bind, run_world, run_settings, read, run_pure]
        have parsing := evolving_parsed Syntax.document text environment s
        have steady := run_parsed_documents Syntax.document text environment s
        rcases ran : (parsed Syntax.document text).run environment s with ⟨failure | root, behind⟩
        · rw [ran] at parsing
          exact parsing
        · rw [ran] at parsing steady
          refine parsing.trans (evolves_nested root (isFile_of_read read)
            (located_of_located? isLocated) ?_)
          rw [show behind.document id = s.document id from congrArg (·.getD id default) steady]
          simpa using outside

theorem evolving_included (id : DocumentId) (operand : Node) :
    (included m id operand).Evolving := by
  rw [included_eq]
  refine (evolving_evaluate asked id operand).bind fun v => ?_
  split
  · exact evolving_includedFile id _ _
  · exact (evolving_describe _).bind fun _ => .fail _ _

/-! ### Conversion -/

omit asked in
theorem evolving_resolved (name : String) (member : Option String) :
    (resolved name member).Evolving := by
  refine Evolving.settings.bind fun settings => ?_
  split
  · exact .pure _
  · refine Evolving.world.bind fun world => ?_
    split
    · exact .pure _
    · exact .fail _ _
    · exact .pure _
    · exact .pure _

theorem evolving_pieceText (id : DocumentId) (piece : Conversion.Piece) :
    (pieceText m id piece).Evolving := by
  cases piece with
  | literal text => exact .pure text
  | path text => exact (asked (.lookup id text none)).bind evolving_interpolated

theorem evolving_filledIn (id : DocumentId) (pieces : List Conversion.Piece) :
    (filledIn m id pieces).Evolving := by
  rw [filledIn_eq]
  refine .tryCatch ((mapM (evolving_pieceText asked id) pieces).bind fun texts =>
    (Evolving.joinedText _).bind fun _ => .pure _) fun failure => ?_
  cases failure with
  | error e => exact .pure _
  | _ => exact .throw _

theorem evolving_standardConverted (id : DocumentId) (text : List Char) :
    (standardConverted m id text).Evolving := by
  unfold standardConverted
  split
  · split
    · exact Evolving.freshMark.bind fun _ => .pure _
    · exact Evolving.freshMark.bind fun _ => .pure _
    · exact .pure _
  · refine Evolving.world.bind fun world => ?_
    split
    · exact (Evolving.newText _).bind fun _ => .pure _
    · exact .pure _
  · exact evolving_resolved _ _
  · dsimp only
    split
    · exact evolving_filledIn asked id _
    · exact .pure _

theorem evolving_converterResult (id : DocumentId) (text : String) :
    (converterResult m id text).Evolving := by
  refine Evolving.settings.bind fun settings => ?_
  split
  · exact evolving_standardConverted asked id _
  · exact .pure _
  · exact (asked (.lookup id text none)).bind fun _ => .pure _
  · exact .pure _

omit asked in
theorem evolving_settle (text : String) (mark : Mark) (result : Converted) :
    (settle text mark result).Evolving := by
  unfold settle
  split
  · exact .pure _
  · refine Evolving.settings.bind fun settings => ?_
    split
    · exact .fail _ _
    · exact .pure _

/-- A text is being converted only while its conversion is under way. -/
theorem evolving_convert (id : DocumentId) (text : String) (mark : Mark) :
    (convert m id text mark).Evolving := by
  intro environment s
  rw [convert_eq, run_bind, Eval.run_document]
  dsimp only
  split
  · exact .refl s
  · rename_i idle
    have inner : Evolves environment.world.files s
        ((converting m id text).run environment s).2 := by
      rw [run_converting]
      refine .converting id text ?_ (evolving_converterResult asked id text environment _)
      simpa using idle
    rw [run_bind]
    rcases ran : (converting m id text).run environment s with ⟨failure | result, behind⟩
    · rw [ran] at inner
      exact inner
    · rw [ran] at inner
      exact inner.trans (evolving_settle text mark result environment behind)

/-! ### Trees and lookups -/

omit asked in
theorem evolving_notEvaluable (node : Node) : (notEvaluable node).Evolving :=
  (Evolving.shown _).bind fun _ => .fail _ _

theorem evolving_tokenValue (id : DocumentId) (token : Token) :
    (tokenValue m id token).Evolving := by
  unfold tokenValue
  split
  any_goals exact .pure _
  · refine Evolving.settings.bind fun settings => ?_
    split
    · exact .pure _
    · exact .fail _ _
  · split
    · exact evolving_convert asked id _ _
    · exact evolving_notEvaluable _
  · exact evolving_notEvaluable _

theorem evolving_truth (id : DocumentId) (operand : Node) : (truth m id operand).Evolving := by
  refine (evolving_evaluate asked id operand).bind fun v => ?_
  split
  · exact .pure _
  · exact (evolving_describe _).bind fun _ => .fail _ _

theorem evolving_infixValue (id : DocumentId) (op : Syntax.InfixOp) (left right : Node) :
    (infixValue m id op left right).Evolving := by
  unfold infixValue
  split
  · refine (evolving_truth asked id left).bind fun holds => ?_
    split
    · exact (evolving_truth asked id right).bind fun _ => .pure _
    · exact .pure _
  · refine (evolving_truth asked id left).bind fun holds => ?_
    split
    · exact .pure _
    · exact (evolving_truth asked id right).bind fun _ => .pure _
  · exact (evolving_evaluate asked id left).bind fun a =>
      (evolving_evaluate asked id right).bind fun b => evolving_applyInfix asked id op a b _

theorem evolving_treeValue (id : DocumentId) (node : Node) : (treeValue m id node).Evolving := by
  unfold treeValue
  split
  · exact evolving_tokenValue asked id _
  · exact evolving_included asked id _
  · exact (evolving_evaluate asked id _).bind fun v => evolving_applyPrefix _ v _
  · exact evolving_reference asked id _ _
  · exact evolving_infixValue asked id _ _ _
  · exact (evolving_listView id _ _).bind fun _ => .pure _
  · exact (evolving_mappingView id _ _).bind fun _ => .pure _
  all_goals exact evolving_notEvaluable _

theorem evolving_operandValue (id : DocumentId) (operand : Syntax.Operand) :
    (operandValue m id operand).Evolving := by
  cases operand with
  | node node => exact evolving_evaluate asked id node
  | bounds bounds => exact (Evolving.shown _).bind fun _ => .fail _ _

theorem evolving_followText (id : DocumentId) (path : String) :
    (followText m id path).Evolving := by
  refine Evolving.fresh.bind fun source => ?_
  split
  · exact evolving_follow asked id _
  · exact .fail _ _

omit asked in
theorem evolving_withDefault (default? : Option Value) {body : Eval Value}
    (evolving : body.Evolving) : (withDefault default? body).Evolving := by
  rw [withDefault_eq]
  split
  · exact evolving.bind fun _ => .pure _
  · refine (evolving.bind fun _ => .pure _).tryCatch fun failure => ?_
    unfold standIn
    split
    · split
      · exact .pure _
      · exact .throw _
    · exact .throw _

theorem evolving_found (id : DocumentId) (root : ViewId) (key : String)
    (default? : Option Value) : (found m id root key default?).Evolving := by
  refine (evolving_entryValue? asked root key).bind fun entry => ?_
  split
  · exact .pure _
  · split
    · exact evolving_withDefault default? (.fail _ _)
    · exact evolving_withDefault default? (evolving_followText asked id key)

theorem evolving_lookupValue (id : DocumentId) (key : String) (default? : Option Value) :
    (lookupValue m id key default?).Evolving := by
  refine (Evolving.document id).bind fun d => ?_
  split
  · exact .pure _
  · refine (Evolving.document id).bind fun d => ?_
    split
    · exact .fail _ _
    · refine (evolving_found asked id _ key default?).bind fun entry => ?_
      dsimp only
      split
      · exact .pure _
      · exact (evolving_unwrap asked _).bind fun v =>
          (evolving_keep id (·.root) _ (·.views)).bind fun _ => .pure v

theorem evolving_answer (request : Request) : (answer m request).Evolving := by
  cases request with
  | evaluate id node => exact evolving_treeValue asked id node
  | materialize v => exact evolving_materializeStep asked v
  | lookup id key default? => exact evolving_lookupValue asked id key default?

end

/-- Answers of any depth change nothing but what evaluations change. -/
theorem evolving_answerWithin (depth : Nat) (request : Request) :
    (answerWithin depth request).Evolving := by
  induction depth generalizing request with
  | zero => exact .throw _
  | succ depth ih => exact evolving_answer (m := ⟨answerWithin depth⟩) ih request

/-- What asks the machine that the environment allows. -/
theorem evolving_machine {α : Type} {next : Machine → Eval α}
    (evolving : ∀ m : Machine, (∀ request, (m.ask request).Evolving) → (next m).Evolving) :
    (machine >>= next).Evolving := by
  intro environment s
  exact evolving ⟨answerWithin environment.depth⟩ (evolving_answerWithin environment.depth)
    environment s

end Evaluation

end LazyConfig
