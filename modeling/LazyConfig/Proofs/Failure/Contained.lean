import LazyConfig.Proofs.Evaluation.Kept
import LazyConfig.Proofs.Relocation.Value
import LazyConfig.Proofs.Syntax.Headed

/-!
# Contained evaluations

A store is local to its first document if nothing in it leads to another document, to a file or to a
text that is still to be converted. An evaluation is contained if it leads from local stores to local
ones, and if a fault that it ends in is one of the few that showing a path or a number can cause.
-/

namespace LazyConfig

open Eval
open Evaluation

/-! ### Local stores -/

/-- A view, or a value that holds no view and no document. -/
def Value.IsLocal : Value → Prop
  | .listView _ | .mappingView _ => True
  | v => v.IsOutside

theorem Value.IsOutside.isLocal {v : Value} (outside : v.IsOutside) : v.IsLocal := by
  cases v with
  | listView | mappingView => trivial
  | _ => exact outside

/-- No value in a local store is a document. -/
theorem Value.not_isLocal_document (id : DocumentId) : ¬ (Value.document id).IsLocal :=
  Nat.not_lt_zero id

def Slot.IsLocal (headed : Bool) : Slot → Prop
  | .node tree => tree.standsAlone headed
  | .value v => v.IsLocal

/-- A view of the first document whose slots are local. -/
def View.IsLocal (headed : Bool) : View → Prop
  | .list owner slots => owner = 0 ∧ ∀ slot ∈ slots, slot.IsLocal headed
  | .mapping owner entries => owner = 0 ∧ ∀ entry ∈ entries, entry.2.IsLocal headed

variable {headed : Bool}

theorem View.IsLocal.owner_eq {view : View} (isLocal : view.IsLocal headed) : view.owner = 0 := by
  cases view <;> exact isLocal.1

theorem View.IsLocal.slots {view : View} (isLocal : view.IsLocal headed) :
    ∀ slot ∈ view.slots, slot.IsLocal headed := by
  cases view with
  | list owner slots => exact isLocal.2
  | mapping owner entries => simp [View.slots]

theorem View.IsLocal.fill {view : View} (isLocal : view.IsLocal headed) (index : Nat) {v : Value}
    (isValue : v.IsLocal) : (view.fill index v).IsLocal headed := by
  cases view with
  | mapping owner entries => exact isLocal
  | list owner slots =>
    refine ⟨isLocal.1, fun slot among => ?_⟩
    rcases List.mem_or_eq_of_mem_set among with among | rfl
    · exact isLocal.2 slot among
    · exact isValue

namespace Store

/-- The store of one document that stands alone. -/
structure IsLocal (headed : Bool) (s : Store) : Prop where
  loaded : (s.document 0).root.isSome
  views : ∀ id, (s.view id).IsLocal headed
  pending : ∀ p ∈ (s.document 0).pending, p.path.leadsAlone headed

variable {s : Store}

theorem IsLocal.present (isLocal : s.IsLocal headed) : 0 < s.documents.size := by
  by_contra absent
  -- what is read of a document that is not there has no root
  have loaded := isLocal.loaded
  simp only [document, Array.getD_eq_getD_getElem?,
    Array.getElem?_eq_none (Nat.not_lt.mp absent)] at loaded
  cases loaded

theorem IsLocal.fresh (isLocal : s.IsLocal headed) : s.fresh.2.IsLocal headed :=
  ⟨isLocal.loaded, isLocal.views, isLocal.pending⟩

/-- A view that is added is the only new one. -/
theorem IsLocal.addView (isLocal : s.IsLocal headed) {v : View} (isView : v.IsLocal headed) :
    (s.addView v).2.IsLocal headed where
  loaded := isLocal.loaded
  pending := isLocal.pending
  views id := by
    rcases Nat.lt_trichotomy id s.views.size with before | rfl | behind
    · rw [s.view_addView_of_lt v before]
      exact isLocal.views id
    · have added := s.view_addView v
      rw [show (s.addView v).1 = s.views.size from rfl] at added
      rwa [added]
    · -- no view has this number yet, which reads as an empty list
      rw [view_of_size_le]
      · exact ⟨rfl, by simp⟩
      · simpa [Store.addView] using Nat.succ_le_of_lt behind

theorem IsLocal.fill (isLocal : s.IsLocal headed) (id : ViewId) (index : Nat) {v : Value}
    (isValue : v.IsLocal) : (s.fill id index v).IsLocal headed where
  loaded := isLocal.loaded
  pending := isLocal.pending
  views other := by
    by_cases same : id = other
    · subst same
      by_cases inside : id < s.views.size
      · rw [Store.fill, s.view_setView _ inside]
        exact (isLocal.views id).fill index isValue
      · rw [view_of_size_le]
        · exact ⟨rfl, by simp⟩
        · simpa [Store.fill, Store.setView] using inside
    · rw [Store.fill, s.view_setView_of_ne _ same]
      exact isLocal.views other

/-- What a document keeps of its values does not matter. -/
theorem IsLocal.setDocument (isLocal : s.IsLocal headed) {d : Document} (loaded : d.root.isSome)
    (pending : ∀ p ∈ d.pending, p.path.leadsAlone headed) :
    (s.setDocument 0 d).IsLocal headed where
  loaded := by rwa [s.document_setDocument d isLocal.present]
  pending := by rwa [s.document_setDocument d isLocal.present]
  views := isLocal.views

end Store

/-! ### Contained evaluations -/

namespace Evaluation

/-- The faults that showing a path or a number can end in. With heads there is none but a number that
is too long. -/
def Tolerated (headed : Bool) : HostFault → Prop
  | .tooManyDigits => True
  | .noHead | .brokenIteration | .noAttribute => headed = false
  | _ => False

/-- The result of a contained evaluation. -/
def Acceptable {α : Type} (headed : Bool) (holds : α → Prop) : Except Failure α → Prop
  | .ok a => holds a
  | .error (.host fault) => Tolerated headed fault
  | .error _ => True

end Evaluation

namespace Eval

variable {α β : Type}

/-- In a local store the evaluation leads to a local store and an acceptable result. -/
def ContainedFrom (headed : Bool) (environment : Environment) (s : Store) (holds : α → Prop)
    (e : Eval α) : Prop :=
  (e.run environment s).2.IsLocal headed ∧ Acceptable headed holds (e.run environment s).1

/-- The same in every local store, if the values of the context hold no views and no documents. -/
def Contained (headed : Bool) (holds : α → Prop) (e : Eval α) : Prop :=
  ∀ (environment : Environment) (s : Store),
    (∀ entry ∈ environment.settings.context, entry.2.IsOutside) → s.IsLocal headed →
    e.ContainedFrom headed environment s holds

variable {environment : Environment} {s left : Store} {holds : α → Prop} {yields : β → Prop}

namespace ContainedFrom

theorem of_run {e : Eval α} {result : Except Failure α}
    (ran : e.run environment s = (result, left)) (isLocal : left.IsLocal headed)
    (acceptable : Acceptable headed holds result) : e.ContainedFrom headed environment s holds := by
  rw [ContainedFrom, ran]
  exact ⟨isLocal, acceptable⟩

theorem bind {first : Eval α} {next : α → Eval β}
    (contained : first.ContainedFrom headed environment s holds)
    (goesOn : ∀ a left, first.run environment s = (.ok a, left) → left.IsLocal headed → holds a →
      (next a).ContainedFrom headed environment left yields) :
    (first >>= next).ContainedFrom headed environment s yields := by
  obtain ⟨isLocal, acceptable⟩ := contained
  rcases ran : first.run environment s with ⟨failure | a, left⟩
  · -- the rest does not run, and what is acceptable of a failure does not depend on the values
    rw [ran] at isLocal acceptable
    have failed : (first >>= next).run environment s = (.error failure, left) := by
      rw [run_bind, ran]
    refine .of_run failed isLocal ?_
    cases failure <;> exact acceptable
  · rw [ran] at isLocal acceptable
    have rest := goesOn a left ran isLocal acceptable
    rwa [ContainedFrom, run_bind, ran]

theorem mono {e : Eval α} {weaker : α → Prop}
    (contained : e.ContainedFrom headed environment s holds) (weakens : ∀ a, holds a → weaker a) :
    e.ContainedFrom headed environment s weaker := by
  obtain ⟨isLocal, acceptable⟩ := contained
  refine ⟨isLocal, ?_⟩
  cases result : (e.run environment s).1 with
  | error failure =>
    rw [result] at acceptable
    cases failure <;> exact acceptable
  | ok a =>
    rw [result] at acceptable
    exact weakens a acceptable

end ContainedFrom

namespace Contained

theorem pure {a : α} (isHeld : holds a) : Contained headed holds (pure a) :=
  fun _ _ _ isLocal => ⟨isLocal, isHeld⟩

theorem fail (cause : Cause) (location : Option Location) :
    Contained headed holds (fail cause location) :=
  fun _ _ _ isLocal => ⟨isLocal, trivial⟩

theorem failHost {fault : HostFault} (tolerated : Tolerated headed fault) :
    Contained headed holds (failHost fault) :=
  fun _ _ _ isLocal => ⟨isLocal, tolerated⟩

theorem bind {first : Eval α} {next : α → Eval β} (contained : Contained headed holds first)
    (goesOn : ∀ a, holds a → Contained headed yields (next a)) :
    Contained headed yields (first >>= next) :=
  fun environment s outside isLocal => (contained environment s outside isLocal).bind
    fun a left _ isLeft isHeld => goesOn a isHeld environment left outside isLeft

theorem mono {e : Eval α} {weaker : α → Prop} (contained : Contained headed holds e)
    (weakens : ∀ a, holds a → weaker a) : Contained headed weaker e :=
  fun environment s outside isLocal => (contained environment s outside isLocal).mono weakens

/-- A handler of failures that lead to a local store. -/
theorem tryCatch {body : Eval α} {handler : Failure → Eval α} (contained : Contained headed holds body)
    (handled : ∀ failure, Acceptable headed holds (.error failure) →
      Contained headed holds (handler failure)) :
    Contained headed holds (tryCatch body handler) := by
  intro environment s outside isLocal
  have first := contained environment s outside isLocal
  rw [ContainedFrom] at first
  rw [ContainedFrom, run_tryCatch]
  rcases ran : body.run environment s with ⟨failure | a, left⟩
  · rw [ran] at first
    exact handled failure first.2 environment left outside first.1
  · rw [ran] at first
    exact first

theorem mapM {f : α → Eval β} {items : List α}
    (each : ∀ a ∈ items, Contained headed yields (f a)) :
    Contained headed (fun found : List β => ∀ b ∈ found, yields b) (items.mapM f) := by
  induction items with
  | nil => exact .pure (by simp)
  | cons a items ih =>
    rw [List.mapM_cons]
    refine (each a List.mem_cons_self).bind fun b isHeld => ?_
    refine (ih fun a among => each a (List.mem_cons_of_mem _ among)).bind fun found areHeld => ?_
    exact .pure (List.forall_mem_cons.mpr ⟨isHeld, areHeld⟩)

theorem foldlM {f : β → α → Eval β} {items : List α}
    (each : ∀ a ∈ items, ∀ b, yields b → Contained headed yields (f b a)) {b : β}
    (isHeld : yields b) : Contained headed yields (items.foldlM f b) := by
  induction items generalizing b with
  | nil => exact .pure isHeld
  | cons a items ih =>
    rw [List.foldlM_cons]
    exact (each a List.mem_cons_self b isHeld).bind fun next isNext =>
      ih (fun a among => each a (List.mem_cons_of_mem _ among)) isNext

theorem optionMapM {f : α → Eval β} {item : Option α}
    (each : ∀ a, item = some a → Contained headed yields (f a)) :
    Contained headed (fun _ => True) (item.mapM f) := by
  cases item with
  | none => exact .pure trivial
  | some a => exact (each a rfl).bind fun b _ => .pure trivial

/-! ### Small steps -/

theorem shown (text : Option String) : Contained headed (fun _ => True) (shown text) := by
  cases text with
  | none => exact .failHost trivial
  | some text => exact .pure trivial

theorem describe (v : Value) : Contained headed (fun _ => True) (describe v) := by
  intro environment s _ isLocal
  rcases @shows_describe environment s v with ⟨text, ran⟩ | ran
  · exact .of_run ran isLocal trivial
  · exact .of_run ran isLocal trivial

theorem document : Contained headed
    (fun d : Document => d.root.isSome ∧ ∀ p ∈ d.pending, p.path.leadsAlone headed) (document 0) :=
  fun _ _ _ isLocal => ⟨isLocal, isLocal.loaded, isLocal.pending⟩

theorem viewOwner (id : ViewId) : Contained headed (· = 0) (viewOwner id) :=
  fun _ _ _ isLocal => ⟨isLocal, (isLocal.views id).owner_eq⟩

theorem slots (id : ViewId) :
    Contained headed (fun slots => ∀ slot ∈ slots, slot.IsLocal headed) (slots id) :=
  fun _ _ _ isLocal => .of_run (run_viewSlots id) isLocal (isLocal.views id).slots

theorem entries (id : ViewId) :
    Contained headed (fun entries => ∀ entry ∈ entries, entry.2.IsLocal headed) (entries id) := by
  intro environment s _ isLocal
  have isView := isLocal.views id
  cases view : s.view id with
  | list owner slots =>
    have none : (Eval.entries id).run environment s = (.ok [], s) := by
      simp only [Eval.entries, run_bind, run_get, view, run_pure]
    exact .of_run none isLocal (by simp [Acceptable])
  | mapping owner entries =>
    rw [view] at isView
    exact .of_run (run_entries view) isLocal isView.2

theorem settings : Contained headed
    (fun settings => ∀ entry ∈ settings.context, entry.2.IsOutside) settings :=
  fun _ _ outside isLocal => ⟨isLocal, outside⟩

theorem freshMark : Contained headed (fun _ => True) freshMark :=
  fun _ _ _ isLocal => ⟨isLocal.fresh, trivial⟩

theorem newNumber (n : Number) : Contained headed Value.IsOutside (newNumber n) :=
  freshMark.bind fun _ _ => .pure trivial

theorem newText (text : String) : Contained headed Value.IsOutside (newText text) :=
  freshMark.bind fun _ _ => .pure trivial

theorem joinedText (text : String) : Contained headed Value.IsOutside (joinedText text) :=
  freshMark.bind fun _ _ => .pure trivial

theorem newList {items : List Value} (outside : ∀ v ∈ items, v.IsOutside) :
    Contained headed Value.IsOutside (newList items) :=
  freshMark.bind fun _ _ => .pure ((Value.itemsWithin_iff _).mpr outside)

theorem newDict {entries : List (String × Value)} (outside : ∀ entry ∈ entries, entry.2.IsOutside) :
    Contained headed Value.IsOutside (newDict entries) :=
  freshMark.bind fun _ _ => .pure ((Value.entriesWithin_iff _).mpr outside)

theorem addView {v : View} (isView : v.IsLocal headed) :
    Contained headed (fun _ => True) (addView v) :=
  fun _ _ _ isLocal => ⟨isLocal.addView isView, trivial⟩

theorem setSlot (id : ViewId) (index : Nat) {v : Value} (isValue : v.IsLocal) :
    Contained headed (fun _ => True) (setSlot id index v) :=
  fun _ _ _ isLocal => .of_run (run_fill id index v) (isLocal.fill id index isValue) trivial

theorem modifyDocument {change : Document → Document}
    (loaded : ∀ d : Document, d.root.isSome → (change d).root.isSome)
    (pending : ∀ d : Document, (∀ p ∈ d.pending, p.path.leadsAlone headed) →
      ∀ p ∈ (change d).pending, p.path.leadsAlone headed) :
    Contained headed (fun _ => True) (modifyDocument 0 change) :=
  fun _ _ _ isLocal =>
    ⟨isLocal.setDocument (loaded _ isLocal.loaded) (pending _ isLocal.pending), trivial⟩

/-- A last step does not change the result. -/
theorem andFinally {body : Eval α} {change : Document → Document}
    (contained : Contained headed holds body)
    (loaded : ∀ d : Document, d.root.isSome → (change d).root.isSome)
    (pending : ∀ d : Document, (∀ p ∈ d.pending, p.path.leadsAlone headed) →
      ∀ p ∈ (change d).pending, p.path.leadsAlone headed) :
    Contained headed holds (andFinally body (Eval.modifyDocument 0 change)) := by
  intro environment s outside isLocal
  have first := contained environment s outside isLocal
  rw [ContainedFrom, Eval.modifyDocument, run_andFinally]
  exact ⟨first.1.setDocument (loaded _ first.1.loaded) (pending _ first.1.pending), first.2⟩

end Contained

end Eval

end LazyConfig
