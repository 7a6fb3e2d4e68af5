import LazyConfig.Evaluation.Basic
import LazyConfig.Value.Merge

/-!
# Views

Lists and mappings of a document are evaluated through views. A list view keeps the value of each
element that has been looked at; a mapping view evaluates an entry anew each time. Materializing a
value evaluates every view in it and leaves plain lists and mappings.
-/

namespace LazyConfig.Evaluation

open Eval

/-- The values of the slots of a container's view are evaluated by the document that owns it. -/
def slotValue (m : Machine) (owner : DocumentId) : Slot → Eval Value
  | .node node => m.evaluate owner node
  | .value v => return v

/-- The element of a list view, which is kept from then on. -/
def element (m : Machine) (id : ViewId) (index : Nat) : Eval Value := do
  match (← slots id)[index]? with
  | none => failHost .indexRange
  | some slot =>
    let v ← slotValue m (← viewOwner id) slot
    setSlot id index v
    return v

/-- A path that cannot be shown breaks off the iteration over a container in a way of its own. -/
def iterating {α : Type} (body : Eval α) : Eval α := do
  try body catch failure =>
    match failure with
    | .host .noHead => failHost .brokenIteration
    | other => throw other

/-- The elements of a list view, each evaluated before the next. -/
def elements (m : Machine) (id : ViewId) : Eval (List Value) := do
  let count := (← slots id).length
  (List.range count).mapM fun index => iterating (element m id index)

/-- The entry of a mapping view, if there is one. -/
def entryValue? (m : Machine) (id : ViewId) (key : String) : Eval (Option Value) := do
  match (← entries id).lookup key with
  | none => return none
  | some slot => return some (← slotValue m (← viewOwner id) slot)

def hasKey (id : ViewId) (key : String) : Eval Bool :=
  return ((← entries id).lookup key).isSome

def keys (id : ViewId) : Eval (List String) := return (← entries id).map (·.1)

/-- A list view as a plain list. -/
def asList (m : Machine) (id : ViewId) : Eval Value := do
  let count := (← slots id).length
  let items ← (List.range count).mapM fun index => do
    m.materialize (← iterating (element m id index))
  newList items

/-- A mapping view as a plain mapping. -/
def asDict (m : Machine) (id : ViewId) : Eval Value := do
  let owner ← viewOwner id
  let items ← (← entries id).mapM fun (key, slot) => do
    return (key, ← m.materialize (← iterating (slotValue m owner slot)))
  newDict items

/-- A whole document as a plain mapping. -/
def documentDict (m : Machine) (id : DocumentId) : Eval Value := do
  match (← document id).root with
  | some root => asDict m root
  | none => fail .noData

/-- A value with every view and document in it evaluated in full. -/
def materializeStep (m : Machine) : Value → Eval Value
  | .listView id => asList m id
  | .mappingView id => asDict m id
  | .document id => documentDict m id
  -- plain lists and mappings hold no views
  | v => return v

/-- A value with a view at its top evaluated in full; documents stay. -/
def unwrap (m : Machine) : Value → Eval Value
  | .listView id => asList m id
  | .mappingView id => asDict m id
  | v => return v

/-! ### Views of trees -/

/-- The entries of a mapping's view. A repeated key is an error, or else its last value counts. -/
def collectEntries (unique : Bool) (seen : List (String × Location))
    (found : List (String × Slot)) : List (Token × Node) → Except Error (List (String × Slot))
  | [] => .ok found
  | (key, node) :: rest =>
    let name := key.name
    match (if unique then seen.lookup name else none) with
    | some previous =>
      .error ⟨.duplicateKey name key.span.start previous, some key.span.start⟩
    | none =>
      collectEntries unique ((name, key.span.start) :: seen) (put name (.node node) found) rest
where
  put (key : String) (slot : Slot) : List (String × Slot) → List (String × Slot)
  | [] => [(key, slot)]
  | (k, s) :: entries => if k = key then (k, slot) :: entries else (k, s) :: put key slot entries

/-- The view of a container of a document's text, made when it is first asked for. -/
def sharedView (id : DocumentId) (span : Span) (make : Eval View) : Eval ViewId := do
  let site : Site := ⟨span.source, span.start⟩
  match (← document id).views.lookup site with
  | some view => return view
  | none =>
    let view ← addView (← make)
    modifyDocument id fun d => { d with views := (site, view) :: d.views }
    return view

def mappingView (id : DocumentId) (entries : List (Token × Node)) (span : Span) : Eval ViewId :=
  sharedView id span do
    match collectEntries (← settings).noDuplicates [] [] entries with
    | .ok found => return .mapping id found
    | .error e => throw (.error e)

def listView (id : DocumentId) (elements : List Node) (span : Span) : Eval ViewId :=
  sharedView id span (return .list id (elements.map .node))

/-! ### Views of plain values -/

mutual

/-- Plain lists and mappings as views that the document owns, at every depth. -/
def toView (owner : DocumentId) : Value → Eval Value
  | .list items _ => do
    let slots ← toSlots owner items
    return .listView (← addView (.list owner slots))
  | .dict entries _ => do
    let slots ← toEntrySlots owner entries
    return .mappingView (← addView (.mapping owner slots))
  | v => return v

def toSlots (owner : DocumentId) : List Value → Eval (List Slot)
  | [] => return []
  | v :: items => do
    let first ← toView owner v
    return .value first :: (← toSlots owner items)

def toEntrySlots (owner : DocumentId) : List (String × Value) → Eval (List (String × Slot))
  | [] => return []
  | (key, v) :: entries => do
    let first ← toView owner v
    return (key, .value first) :: (← toEntrySlots owner entries)

end

/-! ### Copies -/

/-- The mark of a copy: a mark that has been copied before keeps its copy. -/
def copyMark (mark : Mark) : StateT (List (Mark × Mark)) Eval Mark := do
  match (← get).lookup mark with
  | some copied => return copied
  | none =>
    let copied ← freshMark
    modify ((mark, copied) :: ·)
    return copied

mutual

/-- A copy with new containers, dates and objects; numbers, texts and functions stay. -/
def copyWith : Value → StateT (List (Mark × Mark)) Eval Value
  | .list items mark => do
    let items ← copyItems items
    return .list items (← copyMark mark)
  | .dict entries mark => do
    let entries ← copyEntries entries
    return .dict entries (← copyMark mark)
  | .date d mark => return .date d (← copyMark mark)
  | .dateTime t mark => return .dateTime t (← copyMark mark)
  | .object name attributes mark => do
    let attributes ← copyEntries attributes
    return .object name attributes (← copyMark mark)
  | v => return v

def copyItems : List Value → StateT (List (Mark × Mark)) Eval (List Value)
  | [] => return []
  | v :: items => do
    let first ← copyWith v
    return first :: (← copyItems items)

def copyEntries : List (String × Value) → StateT (List (Mark × Mark)) Eval (List (String × Value))
  | [] => return []
  | (key, v) :: entries => do
    let first ← copyWith v
    return (key, first) :: (← copyEntries entries)

end

def copy (v : Value) : Eval Value := return (← (copyWith v).run []).1

/-- The merge of two plain mappings as a view that the document owns. -/
def mergedView (owner : DocumentId) (base update : Value) : Eval Value := do
  toView owner (← Value.mergeValue copy (some base) update)

end LazyConfig.Evaluation
