import LazyConfig.Evaluation.View

/-!
# Running small steps

What the evaluations that read and change one thing of the store come to.
-/

namespace LazyConfig.Store

variable (s : Store) (d : Document)

/-- A change of a document is read back from the document, if it is there. -/
theorem document_setDocument_or (id other : DocumentId) :
    (s.setDocument id d).document other = d ∧ other = id ∧ id < s.documents.size ∨
      (s.setDocument id d).document other = s.document other := by
  by_cases same : id = other
  · subst same
    by_cases present : id < s.documents.size
    · exact .inl ⟨s.document_setDocument d present, rfl, present⟩
    · -- a number that no document has stands for the empty document before and after
      right
      simp [document, setDocument, present]
  · exact .inr (s.document_setDocument_of_ne d same)

theorem document_addDocument_or (other : DocumentId) :
    (s.addDocument d).2.document other = d ∧ other = s.documents.size ∨
      (s.addDocument d).2.document other = s.document other := by
  rcases Nat.lt_trichotomy other s.documents.size with before | rfl | behind
  · exact .inr (s.document_addDocument_of_lt d before)
  · exact .inl ⟨s.document_addDocument d, rfl⟩
  · right
    simp [document, addDocument, Nat.not_lt.mpr (Nat.le_of_lt behind),
      Nat.not_lt.mpr (Nat.succ_le_of_lt behind)]

theorem setDocument_setDocument (id : DocumentId) (first second : Document) :
    (s.setDocument id first).setDocument id second = s.setDocument id second := by
  simp [setDocument]

end LazyConfig.Store

namespace LazyConfig

/-- The slots of the view of a list. -/
def View.slots : View → List Slot
  | .list _ slots => slots
  | .mapping _ _ => []

/-- The value that a slot of a list holds, if its element has been evaluated. -/
def View.value? (view : View) (index : Nat) : Option Value :=
  match view.slots[index]? with
  | some (.value v) => some v
  | _ => none

/-- The view with a value in a slot, if it is that of a list. -/
def View.fill (view : View) (index : Nat) (value : Value) : View :=
  match view with
  | .list owner slots => .list owner (slots.set index (.value value))
  | .mapping owner entries => .mapping owner entries

theorem View.value?_list_eq_some {owner : DocumentId} {slots : List Slot} {index : Nat} {v : Value} :
    (View.list owner slots).value? index = some v ↔ slots[index]? = some (.value v) := by
  rw [View.value?, View.slots]
  constructor
  · intro holds
    split at holds
    · rename_i w isSlot
      rw [isSlot, Option.some.inj holds]
    · cases holds
  · intro isSlot
    rw [isSlot]

theorem View.fill_of_value? {view : View} {index : Nat} {value : Value}
    (holds : view.value? index = some value) : view.fill index value = view := by
  cases view with
  | list owner slots =>
    obtain ⟨inside, isSlot⟩ := List.getElem?_eq_some_iff.mp (View.value?_list_eq_some.mp holds)
    simp only [View.fill, ← isSlot, List.set_getElem_self]
  | mapping owner entries => rfl

/-- The store with a value in a slot of a list. -/
def Store.fill (s : Store) (id : ViewId) (index : Nat) (value : Value) : Store :=
  s.setView id ((s.view id).fill index value)

theorem Store.setView_view (s : Store) (id : ViewId) : s.setView id (s.view id) = s := by
  have same : s.views.setIfInBounds id (s.view id) = s.views := by
    refine Array.ext_getElem? fun i => ?_
    by_cases here : id = i
    · subst here
      by_cases inside : id < s.views.size
      · simp [Store.view, inside]
      · simp [inside]
    · simp [Array.getElem?_setIfInBounds_ne here]
  simp only [Store.setView, same]

end LazyConfig

namespace LazyConfig.Eval

open Evaluation (Environment)

variable {environment : Environment} {s : Store}

theorem run_slots {v : ViewId} {owner : DocumentId} {slots : List Slot}
    (isView : s.view v = .list owner slots) :
    (Eval.slots v).run environment s = (.ok slots, s) := by
  simp only [Eval.slots, run_bind, run_get, isView, run_pure]

theorem run_entries {v : ViewId} {owner : DocumentId} {entries : List (String × Slot)}
    (isView : s.view v = .mapping owner entries) :
    (Eval.entries v).run environment s = (.ok entries, s) := by
  simp only [Eval.entries, run_bind, run_get, isView, run_pure]

theorem run_viewOwner (v : ViewId) :
    (viewOwner v).run environment s = (.ok (s.view v).owner, s) := by
  simp only [viewOwner, run_bind, run_get, run_pure]

theorem run_document (id : DocumentId) :
    (document id).run environment s = (.ok (s.document id), s) := by
  simp only [document, run_bind, run_get, run_pure]

theorem run_setSlot {v : ViewId} {owner : DocumentId} {slots : List Slot} {index : Nat}
    {value : Value} (isView : s.view v = .list owner slots) :
    (setSlot v index value).run environment s =
      (.ok (), s.setView v (.list owner (slots.set index (.value value)))) := by
  simp only [setSlot, run_bind, run_get, isView, run_modify]

theorem run_viewSlots (v : ViewId) :
    (Eval.slots v).run environment s = (.ok (s.view v).slots, s) := by
  cases isView : s.view v <;> simp only [Eval.slots, run_bind, run_get, isView] <;> rfl

theorem run_fill (v : ViewId) (index : Nat) (value : Value) :
    (setSlot v index value).run environment s = (.ok (), s.fill v index value) := by
  cases isView : s.view v with
  | list owner slots =>
    rw [run_setSlot isView, Store.fill, isView]
    rfl
  | mapping owner entries =>
    have same : s.fill v index value = s := by
      have kept := s.setView_view v
      rw [isView] at kept
      rwa [Store.fill, isView]
    simp only [setSlot, run_bind, run_get, isView, run_pure, same]

theorem run_addView (view : View) :
    (addView view).run environment s = (.ok s.views.size, (s.addView view).2) := rfl

theorem run_modifyDocument (id : DocumentId) (change : Document → Document) :
    (modifyDocument id change).run environment s =
      (.ok (), s.setDocument id (change (s.document id))) := rfl

theorem run_fresh : fresh.run environment s = (.ok s.serial, s.fresh.2) := rfl

theorem run_freshMark : freshMark.run environment s = (.ok (.made s.serial), s.fresh.2) := rfl

theorem run_settings : settings.run environment s = (.ok environment.settings, s) := rfl

theorem run_world : world.run environment s = (.ok environment.world, s) := rfl

/-- What an evaluation that succeeds has gone through. -/
theorem run_bind_ok {α β : Type} {first : Eval α} {next : α → Eval β} {b : β} {left : Store}
    (ran : (first >>= next).run environment s = (.ok b, left)) :
    ∃ a middle, first.run environment s = (.ok a, middle) ∧
      (next a).run environment middle = (.ok b, left) := by
  rw [run_bind] at ran
  rcases before : first.run environment s with ⟨_ | a, middle⟩
  · rw [before] at ran
    cases ran
  · rw [before] at ran
    exact ⟨a, middle, rfl, ran⟩

/-- A handler runs on the store that the failed evaluation leaves. -/
theorem run_tryCatch {α : Type} (body : Eval α) (handler : Evaluation.Failure → Eval α) :
    (tryCatch body handler).run environment s =
      match body.run environment s with
      | (.ok a, left) => (.ok a, left)
      | (.error failure, left) => (handler failure).run environment left := by
  rcases ran : body.run environment s with ⟨_ | a, left⟩ <;>
    simp only [Eval.run, ReaderT.run, ExceptT.run, StateT.run] at ran <;>
    simp [Eval.run, tryCatch, tryCatchThe, MonadExceptOf.tryCatch, ExceptT.tryCatch, ExceptT.run,
      ExceptT.mk, ReaderT.run, StateT.run, bind, StateT.bind, ran]
  -- a failure is handed to the handler
  rfl

theorem run_iterating {α : Type} (body : Eval α) :
    (Evaluation.iterating body).run environment s =
      match body.run environment s with
      | (.error (.host .noHead), left) => (.error (.host .brokenIteration), left)
      | result => result := by
  rw [Evaluation.iterating, run_tryCatch]
  rcases body.run environment s with ⟨failure | a, left⟩
  · cases failure with
    | host fault => cases fault <;> rfl
    | error => rfl
    | exhausted => rfl
  · rfl

end LazyConfig.Eval
