import LazyConfig.Evaluation.Describe
import LazyConfig.Evaluation.View

/-!
# Following paths

A path is followed from the root of a document. When it steps into a nested document, what it finds
there is evaluated by that document, so that references in it lead from its own root. A reference
follows a path, and a reference that is met again while it is being followed is circular.
-/

namespace LazyConfig.Evaluation

open Eval
open Syntax (Bounds)

/-- The text of a path in messages. -/
def sourceText (path : Node) : Eval String := do
  match path.sourceText with
  | .ok text => return text
  | .error .noHead => failHost .noHead
  | .error .stepFirst => failHost .noAttribute
  | .error .tooManyDigits => failHost .tooManyDigits
  | .error (.notAPath shown location) => fail (.noSource shown) location
  | .error .operator => fail (.noSource "") path.start

variable (m : Machine)

/-! ### Slices -/

/-- The integer that a bound evaluates to. -/
def bound (evaluator : DocumentId) (node : Node) : Eval Int := do
  match ← m.evaluate evaluator node with
  | .number (.int n) _ => return n
  | v => fail (.notInteger (← describe v)) node.start

/-- The first position of a slice of a list that is not empty. A negative bound counts from the end
once and stops at the front; a bound beyond the end is the last position. -/
def firstPosition (size : Nat) (bound : Option Int) : Int :=
  match bound with
  | none => 0
  | some start =>
    if start < 0 then (if -size ≤ start then start + size else 0)
    else if size ≤ start then size - 1
    else start

/-- The last position of a slice of a list that is not empty, by the direction of its step. -/
def lastPosition (size : Nat) (step : Int) (bound : Option Int) : Int :=
  match bound with
  | none => size - 1
  | some stop =>
    let stop := if stop < 0 then (if -size ≤ stop then stop + size else 0) else stop
    let stop := min stop size
    if step < 0 then stop + 1 else stop - 1

/-- The positions from the first to the last in steps, at most so many of them. -/
def walkPositions (last step : Int) (first : Int) : Nat → List Int
  | 0 => []
  | count + 1 =>
    if (if 0 < step then first ≤ last else last ≤ first) then
      first :: walkPositions last step (first + step) count
    else []

/-- The positions of a list of the given size that a slice visits. A step backwards whose first
position comes before its last walks the same range from the other end. -/
def slicePositions (size : Nat) (start stop : Option Int) (step : Int) : List Nat :=
  if size = 0 then []
  else
    let first := firstPosition size start
    let last := lastPosition size step stop
    -- steps backwards from an earlier to a later position go through the same range
    let (first, last) := if step < 0 ∧ first < last then (last, first) else (first, last)
    -- the bounds can lie one place outside the list
    let visited := walkPositions last step first ((last - first).natAbs + 1)
    visited.filterMap fun (i : Int) => if 0 ≤ i ∧ i < size then some i.toNat else none

/-- The elements that a slice selects, in a view of their own. The step is evaluated before the
bounds, and the bounds of an empty list are not evaluated. -/
def sliced (evaluator : DocumentId) (id : ViewId) (bounds : Bounds Node) : Eval Value := do
  let size := (← slots id).length
  let owner ← viewOwner id
  let step ← match bounds.step with
    | none => pure 1
    | some node => bound m evaluator node
  if step = 0 then fail .zeroStep bounds.span.start
  let positions ←
    if size = 0 then pure []
    else do
      let start ← bounds.start.mapM (bound m evaluator)
      let stop ← bounds.stop.mapM (bound m evaluator)
      pure (slicePositions size start stop step)
  let items ← positions.mapM (element m id)
  return .listView (← addView (.list owner (items.map .value)))

/-! ### Steps -/

/-- A step whose operand has been evaluated. -/
inductive ReadyStep where
  | operand (value : Value)
  | slice (bounds : Bounds Node)

/-- Evaluates the operand of a step. -/
def ready (evaluator : DocumentId) : Step → Eval ReadyStep
  | .member name => return .operand (← newText name)
  | .index operand => return .operand (← m.evaluate evaluator operand)
  | .operator _ operand => return .operand (← m.evaluate evaluator operand)
  | .slice bounds => return .slice bounds

/-- The entry under a key that must be there, and the document that evaluates it. -/
def stepInto (evaluator : DocumentId) (id : ViewId) (key : String) :
    Eval (DocumentId × Value) := do
  match (← entries id).lookup key with
  | none => fail (.notFound key)
  | some slot => return (evaluator, ← slotValue m evaluator slot)

/-- The element at an index that must be in range; a negative one counts from the end once. The
view keeps a value that its slot did not hold yet. -/
def elementAt (id : ViewId) (index : Int) : Eval (DocumentId × Value) := do
  let evaluator ← viewOwner id
  let present ← slots id
  let size : Int := present.length
  let position := if -size ≤ index ∧ index < 0 then index + size else index
  match (if position < 0 then none else present[position.toNat]?) with
  | none =>
    fail (.outOfRange (← shown (Decimal.intText? index)) (toString (size - 1)))
  | some (.value v) => return (evaluator, v)
  | some (.node node) =>
    let v ← m.evaluate evaluator node
    setSlot id position.toNat v
    return (evaluator, v)

/-- A step into a mapping or a document: its operand must be a text. -/
def keyed (id : Eval (DocumentId × ViewId)) : ReadyStep → Eval (DocumentId × Value)
  | .slice bounds => fail .notAList bounds.span.start
  | .operand (.text key _) => do
    let (evaluator, view) ← id
    stepInto m evaluator view key
  | .operand v => do fail (.notString (← describe v))

/-- Takes a step from a value, which the path has led to, and says which document evaluates what
comes next. -/
def take (path : Node) (v : Value) (step : ReadyStep) :
    Eval (DocumentId × Value) := do
  match v with
  | .mappingView id => keyed m (return (← viewOwner id, id)) step
  | .document id =>
    keyed m (do
      match (← document id).root with
      | some root => return (id, root)
      | none => failHost .noAttribute) step
  | .listView id =>
    let evaluator ← viewOwner id
    match step with
    | .slice bounds => return (evaluator, ← sliced m evaluator id bounds)
    | .operand (.number (.int index) _) => elementAt m id index
    | .operand other => fail (.notInteger (← describe other))
  | _ =>
    match step with
    | .slice bounds => fail .notAList bounds.span.start
    | .operand _ => fail (.notFound (← sourceText path))

/-- The value that a path leads to from the root of a document. -/
def follow (id : DocumentId) (path : Node) : Eval Value := do
  match path.head? with
  | some head =>
    if head.kind ≠ .word then fail (.notAPath path.start) path.start
    match (← document id).root with
    | none => failHost .noAttribute
    | some root =>
      let evaluator ← viewOwner root
      match (← entries root).lookup head.name with
      | none => fail (.notFound head.name) head.span.start
      | some slot =>
        let first ← slotValue m evaluator slot
        -- an operand is evaluated by the document that the path has reached
        let (_, v) ← path.steps.foldlM (fun (evaluator, v) step => do
          take m path v (← ready m evaluator step)) (evaluator, first)
        return v
  | none => fail (.notAPath path.start) path.start

/-! ### References -/

/-- How a circle shows a reference: its path and where it stands. -/
def pendingText (p : Pending) : Eval String := do
  return (← sourceText p.path) ++ " " ++ p.path.start.text

def sortTexts (texts : List String) : List String := texts.mergeSort fun a b => !(b < a)

/-- The value of a reference, which is pending meanwhile. -/
def reference (id : DocumentId) (path : Node) (sigil : Location) : Eval Value := do
  let site : Site := ⟨path.source, sigil⟩
  let pending := (← document id).pending
  -- a reference that is already pending would lead back to itself
  if pending.any (·.site = site) then
    fail (.circular (sortTexts (← pending.mapM pendingText))) path.start
  modifyDocument id fun d => { d with pending := ⟨site, path⟩ :: d.pending }
  andFinally (follow m id path)
    (modifyDocument id fun d => { d with pending := d.pending.filter (·.site ≠ site) })

end LazyConfig.Evaluation
