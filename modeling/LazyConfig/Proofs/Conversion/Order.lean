import LazyConfig.Proofs.Evaluation.Run
import LazyConfig.Proofs.Resolution.Document

/-!
# Conversions in lenient documents

A text whose paths cannot be filled in stays as it is, whatever kept them from being filled in, also
that another text is still being converted. A list view that is looked at meanwhile keeps the bare
text: what is found in it later depends on what was looked up before.
-/

namespace LazyConfig.Conversion

open Eval
open Evaluation

variable {environment : Environment} {s left : Store} {id : DocumentId}

/-- A text may stay as it is, and the converter is the standard one. -/
structure Lenient (environment : Environment) : Prop where
  unchecked : environment.settings.strictConversions = false
  standard : environment.settings.converter = .standard

/-- A text with paths to fill in that has none of the other forms. -/
structure FillsIn (text : String) : Prop where
  noMoment : Calendar.fields? text.toList = none
  noVariable : environmentName? text.toList = none
  noObject : objectName? text.toList = none
  hasPath : (pieces text.toList).any isPath = true

/-- The paths of a text are filled in, unless an error keeps one from being looked up. Then the text
stays as it is, and so does what the lookup has changed. -/
theorem run_filledIn (m : Machine) (pieces : List Piece) :
    (filledIn m id pieces).run environment s =
      match (pieces.mapM (pieceText m id)).run environment s with
      | (.ok texts, left) => (.ok (some (.text (String.join texts)
          (.ofAssembled (String.join texts) (.made left.serial)))), left.fresh.2)
      | (.error (.error _), left) => (.ok none, left)
      | (.error failure, left) => (.error failure, left) := by
  rcases ran : (pieces.mapM (pieceText m id)).run environment s with ⟨failure | texts, left⟩ <;>
    simp only [Eval.run, ReaderT.run, ExceptT.run, StateT.run] at ran
  · cases failure <;>
      simp [filledIn, Eval.run, tryCatch, tryCatchThe, MonadExceptOf.tryCatch, ExceptT.tryCatch,
        ExceptT.run, ExceptT.mk, ReaderT.run, ReaderT.bind, StateT.run, bind, StateT.bind,
        ExceptT.bind, ExceptT.bindCont, ran] <;>
      rfl
  · simp [filledIn, Eval.run, tryCatch, tryCatchThe, MonadExceptOf.tryCatch, ExceptT.tryCatch,
      ExceptT.run, ExceptT.mk, ReaderT.run, ReaderT.bind, StateT.run, bind, StateT.bind,
      ExceptT.bind, ExceptT.bindCont, ran]
    rfl

/-- The store while a text is being converted. -/
def marked (s : Store) (id : DocumentId) (text : String) : Store :=
  s.setDocument id { s.document id with converting := text :: (s.document id).converting }

/-- The store when this is over. -/
def unmarked (s : Store) (id : DocumentId) (text : String) : Store :=
  s.setDocument id
    { s.document id with converting := (s.document id).converting.filter (· ≠ text) }

@[simp] theorem view_unmarked (text : String) (v : ViewId) :
    (unmarked s id text).view v = s.view v := rfl

/-- A conversion that comes to nothing gives the text itself in lenient documents. -/
theorem run_convert_unchanged {m : Machine} {text : String} (mark : Mark)
    (idle : (s.document id).converting.contains text = false)
    (lenient : Lenient environment)
    (nothing : (converterResult m id text).run environment (marked s id text) = (.ok none, left)) :
    (convert m id text mark).run environment s =
      (.ok (.text text mark), unmarked left id text) := by
  rw [convert, run_bind, run_document]
  simp only [idle, Bool.false_eq_true, if_false]
  rw [run_bind, run_modifyDocument]
  dsimp only
  rw [run_bind, modifyDocument, run_andFinally, ← marked, nothing]
  simp only [Option.filter_none, run_bind, run_settings, lenient.unchecked, Bool.false_eq_true, if_false]
  rfl

/-- The standard converter fills in the paths of a text that has no other form. -/
theorem run_converterResult {m : Machine} {text : String}
    (standard : environment.settings.converter = .standard) (fills : FillsIn text) :
    (converterResult m id text).run environment s =
      (filledIn m id (pieces text.toList)).run environment s := by
  rw [converterResult, run_bind, run_settings]
  simp only [standard, standardConverted, fills.noMoment, fills.noVariable, fills.noObject,
    fills.hasPath, if_true]

/-- A text in backticks that is an element of a list, one of whose paths cannot be looked up at the
moment: the list view keeps the bare text from then on, whatever the path would give later. -/
theorem element_keeps_text {depth : Nat} {view : ViewId} {index : Nat} {token : Token}
    {text : String} {slots held : List Slot} {e : Error}
    (isView : s.view view = .list id slots) (isSlot : slots[index]? = some (.node (.leaf token)))
    (isBackTick : token.kind = .backTick) (isText : token.value = .text text)
    (lenient : Lenient environment) (fills : FillsIn text)
    (idle : (s.document id).converting.contains text = false)
    (failed : ((pieces text.toList).mapM (pieceText ⟨answerWithin depth⟩ id)).run environment
      (marked s id text) = (.error (.error e), left))
    (isHeld : left.view view = .list id held) (inside : index < held.length)
    (known : view < left.views.size) :
    let bare := Value.text text (.ofText text (.written token.span.source token.span.start))
    let e := (element ⟨answerWithin (depth + 1)⟩ view index).run environment s
    e.1 = .ok bare ∧ ∀ m, (element m view index).run environment e.2 = (.ok bare, e.2) := by
  intro bare
  have nothing : (converterResult ⟨answerWithin depth⟩ id text).run environment (marked s id text) =
      (.ok none, left) := by
    rw [run_converterResult lenient.standard fills, run_filledIn, failed]
  have converted : (slotValue ⟨answerWithin (depth + 1)⟩ id (.node (.leaf token))).run
      environment s = (.ok bare, unmarked left id text) := by
    change (tokenValue ⟨answerWithin depth⟩ id token).run environment s = _
    simp only [tokenValue, isBackTick, isText, Value.ofLiteral]
    exact run_convert_unchanged _ idle lenient nothing
  have owner : (s.view view).owner = id := by rw [isView]; rfl
  let kept := (unmarked left id text).setView view (.list id (held.set index (.value bare)))
  have ran : (element ⟨answerWithin (depth + 1)⟩ view index).run environment s =
      (.ok bare, kept) := by
    simp only [element, run_bind, run_slots isView, isSlot, run_viewOwner, owner, converted,
      run_setSlot (show (unmarked left id text).view view = .list id held from isHeld), run_pure]
    rfl
  simp only [ran, true_and]
  -- the element is kept, so that looking at it again changes nothing
  intro m
  have isKept : kept.view view = .list id (held.set index (.value bare)) :=
    Store.view_setView _ _ known
  have isSet : (held.set index (.value bare))[index]? = some (.value bare) := by
    simp [inside]
  have again : kept.setView view (.list id ((held.set index (.value bare)).set index
      (.value bare))) = kept := by
    simp [kept, Store.setView]
  simp only [element, run_bind, run_slots isKept, isSet, run_viewOwner, slotValue, run_pure,
    run_setSlot isKept, again]

/-! ### Two texts that need each other -/

/-- A lenient document of two texts in a circle, one of them in a list. -/
def circleEnvironment : Environment :=
  { Resolution.emptyWorld with settings := { strictConversions := false } }

def circleText : Text.Decoded :=
  ⟨"x: [`<$\x7by\x7d>`]\ny: `($\x7bx[0]\x7d)`".toList, none⟩

def circleStore : Store := ((Resolution.opened false circleText none).run circleEnvironment {}).2

/-- The text that is found at a key or path. -/
def textAt (s : Store) (key : String) : Option String :=
  match ((Document.get 0 key).run circleEnvironment s).1 with
  | .ok (.text text _) => some text
  | _ => none

/-- What a document has at a path is one text at first, and another one after another key has been
looked up. -/
theorem earlier_lookup_changes_text :
    textAt circleStore "x[0]" = some "<($\x7bx[0]\x7d)>" ∧
      textAt ((Document.get 0 "y").run circleEnvironment circleStore).2 "x[0]" =
        some "<$\x7by\x7d>" := by
  decide +kernel

end LazyConfig.Conversion
