import LazyConfig.Document.Store
import LazyConfig.Evaluation.Error
import LazyConfig.World.Basic

/-!
# Evaluation

An evaluation reads the world and the settings, and changes the store; what it has changed stays
changed when it fails. Evaluations ask one another for values: a request names what is wanted, and
each answer to a request inside another one has a smaller depth.
-/

namespace LazyConfig

namespace Evaluation

/-- What an evaluation can see but not change. -/
structure Environment where
  world : World
  settings : Settings
  /-- How deep evaluations may stand inside one another. -/
  depth : Nat := 100000

end Evaluation

open Evaluation (Environment Failure Error Cause HostFault)

abbrev Eval := ReaderT Environment (ExceptT Failure (StateM Store))

namespace Eval

def run {α : Type} (e : Eval α) (environment : Environment) (store : Store) :
    Except Failure α × Store :=
  StateT.run (ExceptT.run (ReaderT.run e environment)) store

def world : Eval World := return (← read).world

def settings : Eval Settings := return (← read).settings

def fail {α : Type} (cause : Cause) (location : Option Location := none) : Eval α :=
  throw (.error ⟨cause, location⟩)

def failHost {α : Type} (fault : HostFault) : Eval α := throw (.host fault)

/-- The text, or the failure to show an integer of too many digits. -/
def shown (text : Option String) : Eval String :=
  match text with
  | some text => return text
  | none => failHost .tooManyDigits

/-- Runs an evaluation, and a last step whether it fails or not. -/
def andFinally {α : Type} (body : Eval α) (last : Eval Unit) : Eval α := do
  let result ← try Except.ok <$> body catch failure => pure (.error failure)
  last
  match result with
  | .ok value => return value
  | .error failure => throw failure

/-- A fresh number for a text or a value. -/
def fresh : Eval Nat := modifyGet Store.fresh

def freshMark : Eval Mark := return .made (← fresh)

/-- A number with an identity of its own. -/
def newNumber (n : Number) : Eval Value := return .number n (← freshMark)

def newText (text : String) : Eval Value := return .text text (.ofText text (← freshMark))

/-- A text that is put together from pieces. -/
def joinedText (text : String) : Eval Value := return .text text (.ofAssembled text (← freshMark))

def newList (items : List Value) : Eval Value := return .list items (← freshMark)

def newDict (entries : List (String × Value)) : Eval Value := return .dict entries (← freshMark)

def document (id : DocumentId) : Eval Document := return (← get).document id

def modifyDocument (id : DocumentId) (f : Document → Document) : Eval Unit :=
  modify fun s => s.setDocument id (f (s.document id))

def addDocument (d : Document) : Eval DocumentId := modifyGet (·.addDocument d)

def addView (v : View) : Eval ViewId := modifyGet (·.addView v)

def viewOwner (id : ViewId) : Eval DocumentId := return ((← get).view id).owner

/-- The slots of a list view. -/
def slots (id : ViewId) : Eval (List Slot) := do
  match (← get).view id with
  | .list _ slots => return slots
  | .mapping _ _ => return []

/-- The entries of a mapping view. -/
def entries (id : ViewId) : Eval (List (String × Slot)) := do
  match (← get).view id with
  | .mapping _ entries => return entries
  | .list _ _ => return []

/-- Puts a value into a slot of a list view. -/
def setSlot (id : ViewId) (index : Nat) (value : Value) : Eval Unit := do
  match (← get).view id with
  | .list owner slots =>
    modify fun s => s.setView id (.list owner (slots.set index (.value value)))
  | .mapping _ _ => return ()

/-! ### Running an evaluation -/

variable {α β : Type} (environment : Environment) (store : Store)

@[simp] theorem run_pure (a : α) :
    (pure a : Eval α).run environment store = (.ok a, store) := rfl

@[simp] theorem run_fail (cause : Cause) (location : Option Location) :
    (fail cause location : Eval α).run environment store =
      (.error (.error ⟨cause, location⟩), store) := rfl

@[simp] theorem run_failHost (fault : HostFault) :
    (failHost fault : Eval α).run environment store = (.error (.host fault), store) := rfl

@[simp] theorem run_get : (get : Eval Store).run environment store = (.ok store, store) := rfl

@[simp] theorem run_read :
    (read : Eval Environment).run environment store = (.ok environment, store) := rfl

@[simp] theorem run_modify (change : Store → Store) :
    (modify change : Eval Unit).run environment store = (.ok (), change store) := rfl

/-- What follows an evaluation runs if it succeeds, on the store that it leaves. -/
theorem run_bind (first : Eval α) (next : α → Eval β) :
    (first >>= next).run environment store =
      match first.run environment store with
      | (.ok a, left) => (next a).run environment left
      | (.error failure, left) => (.error failure, left) := by
  change StateT.run (ExceptT.run (first environment >>= fun a => next a environment)) store = _
  rw [ExceptT.run_bind, StateT.run_bind]
  rcases ran : first.run environment store with ⟨_ | a, left⟩ <;>
    rw [show StateT.run (ExceptT.run (first environment)) store = _ from ran] <;> rfl

/-- Trying an evaluation turns its result into a value. -/
theorem run_attempt (body : Eval α) :
    (try Except.ok <$> body catch failure => pure (.error failure) :
        Eval (Except Failure α)).run environment store =
      let (result, left) := body.run environment store
      (.ok result, left) := by
  rcases ran : body.run environment store with ⟨_ | a, left⟩ <;>
    simp only [Eval.run, ReaderT.run, ExceptT.run, StateT.run] at ran <;>
    simp [Eval.run, tryCatch, tryCatchThe, MonadExceptOf.tryCatch, ExceptT.tryCatch, ExceptT.run,
      ExceptT.mk, ReaderT.run, StateT.run, bind, StateT.bind, Functor.map, ExceptT.map, ran] <;>
    rfl

/-- A last step runs on the store that the body leaves, and the body's result stands. -/
theorem run_andFinally (body : Eval α) (change : Store → Store) :
    (andFinally body (modify change)).run environment store =
      let (result, left) := body.run environment store
      (result, change left) := by
  rw [andFinally, run_bind, run_attempt]
  rcases body.run environment store with ⟨_ | a, left⟩ <;> rfl

end Eval

/-- What one evaluation can ask of another. -/
inductive Request where
  | evaluate (document : DocumentId) (node : Node)
  /-- The value with every view and document in it evaluated in full. -/
  | materialize (value : Value)
  /-- The value of a document at a key or path, with a default. -/
  | lookup (document : DocumentId) (key : String) (default? : Option Value)

/-- The answers to requests from inside an evaluation. -/
structure Machine where
  ask : Request → Eval Value

namespace Machine

def evaluate (m : Machine) (document : DocumentId) (node : Node) : Eval Value :=
  m.ask (.evaluate document node)

def materialize (m : Machine) (value : Value) : Eval Value := m.ask (.materialize value)

def lookup (m : Machine) (document : DocumentId) (key : String) (default? : Option Value) :
    Eval Value :=
  m.ask (.lookup document key default?)

end Machine

end LazyConfig
