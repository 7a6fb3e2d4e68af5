import LazyConfig.Document.Load
import LazyConfig.Evaluation.Machine

/-!
# Looking into documents

What can be asked of a document: its value at a key or a path, all of it as a plain mapping, its
keys, and the value of an expression or a conversion text in it.
-/

namespace LazyConfig.Document

open Eval
open Evaluation (machine)

/-- The value at a key or path, with a view at its top evaluated in full; the default takes the
place of a value that is missing. -/
def get (id : DocumentId) (key : String) (default? : Option Value := none) : Eval Value := do
  (← machine).lookup id key default?

/-- The value at a path; lists and mappings are views. -/
def follow (id : DocumentId) (path : String) : Eval Value := do
  Evaluation.followText (← machine) id path

/-- The value of a tree. -/
def evaluate (id : DocumentId) (node : Node) : Eval Value := do (← machine).evaluate id node

/-- The value of the operand that a tree has on a side. -/
def evaluateOperand (id : DocumentId) (node : Node) (side : Syntax.Side) : Eval Value := do
  match node.operand? side with
  | some operand => Evaluation.operandValue (← machine) id operand
  | none => failHost .noAttribute

/-- What the document's converter makes of a text from outside. -/
def convert (id : DocumentId) (text : String) : Eval Value := do
  Evaluation.convert (← machine) id text (.ofText text (← freshMark))

/-- The whole document as a plain mapping. -/
def asDict (id : DocumentId) : Eval Value := do Evaluation.documentDict (← machine) id

def keys (id : DocumentId) : Eval (List String) := do
  match (← document id).root with
  | some root => Evaluation.keys root
  | none => return []

/-- Whether there is an entry under a key; a path is no key. -/
def contains (id : DocumentId) (key : String) : Eval Bool := do
  match (← document id).root with
  | some root => Evaluation.hasKey root key
  | none => return false

/-- Starts or stops keeping the values that are looked up. -/
def setCaching (id : DocumentId) (caching : Bool) : Eval Unit :=
  modifyDocument id fun d => { d with cache := if caching then some (d.cache.getD []) else none }

end LazyConfig.Document

namespace LazyConfig.Evaluation

open Eval

/-! ### Looking into views -/

/-- The element of a list view at an index; a negative one counts from the end. -/
def itemAt (id : ViewId) (index : Int) : Eval Value := do
  let size : Int := (← slots id).length
  let position := if index < 0 then index + size else index
  if position < 0 then failHost .indexRange
  element (← machine) id position.toNat

/-- The entry of a mapping view under a key. -/
def itemUnder (id : ViewId) (key : String) : Eval Value := do
  match ← entryValue? (← machine) id key with
  | some v => return v
  | none => fail (.notFound key)

/-- What stands in a view or a document at an index or under a key. Only lists have indices, and a
list has nothing else. -/
def item (v key : Value) : Eval Value := do
  match v, key with
  | .listView id, .number (.int index) _ => itemAt id index
  | .mappingView id, .text key _ => itemUnder id key
  | .mappingView _, other => fail (.notFound (← describe other))
  | .document id, .text key _ => (← machine).lookup id key none
  | _, _ => failHost .noItems

/-- The elements of a list view. -/
def items (id : ViewId) : Eval (List Value) := do elements (← machine) id

/-- The entries of a mapping view. -/
def entryItems (id : ViewId) : Eval (List (String × Value)) := do
  let m ← machine
  let owner ← viewOwner id
  (← entries id).mapM fun (key, slot) => do
    return (key, ← iterating (slotValue m owner slot))

/-- A value with every view in it evaluated in full; a document at the top stays. -/
def complete (v : Value) : Eval Value := do unwrap (← machine) v

end LazyConfig.Evaluation
