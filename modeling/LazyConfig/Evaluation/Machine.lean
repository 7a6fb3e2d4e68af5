import LazyConfig.Evaluation.Conversion
import LazyConfig.Evaluation.Follow
import LazyConfig.Evaluation.Inclusion
import LazyConfig.Evaluation.Operator

/-!
# The machine

The three requests answered. A tree is evaluated by its form; a lookup takes its key for an entry of
the root first, and for a path if it is no name; materializing evaluates views in full. Each request
that an answer makes is answered by a machine of one less depth, so that every answer ends.
-/

namespace LazyConfig.Evaluation

open Eval
open Syntax (PrefixOp InfixOp)

/-! ### Trees -/

/-- A tree that has no value. -/
def notEvaluable (node : Node) : Eval Value := do
  fail (.notEvaluable (← shown node.describe?)) node.start

def variableValue (name : String) (location : Location) : Eval Value := do
  match (← settings).context.lookup name with
  | some v => return v
  | none => fail (.unknownVariable name) location

def tokenValue (m : Machine) (id : DocumentId) (token : Token) : Eval Value := do
  match token.kind with
  | .string | .integer | .float | .complex | .false | .true | .none =>
    return .ofLiteral token.span token.value
  | .word => variableValue token.name token.span.start
  | .backTick =>
    match Value.ofLiteral token.span token.value with
    | .text text mark => convert m id text mark
    | _ => notEvaluable (.leaf token)
  | _ => notEvaluable (.leaf token)

/-- The truth value of an operand of `and` and `or`. -/
def truth (m : Machine) (id : DocumentId) (operand : Node) : Eval Bool := do
  match ← m.evaluate id operand with
  | .bool b => return b
  | v => fail (.notBoolean (← describe v)) operand.start

/-- The value of an infix operator; `and` and `or` leave out an operand that does not matter. -/
def infixValue (m : Machine) (id : DocumentId) (op : InfixOp) (left right : Node) :
    Eval Value := do
  match op with
  | .and => if ← truth m id left then return .bool (← truth m id right) else return .bool false
  | .or => if ← truth m id left then return .bool true else return .bool (← truth m id right)
  | op =>
    let a ← m.evaluate id left
    let b ← m.evaluate id right
    applyInfix m id op a b left.start

/-- The value of a tree in a document. Containers are evaluated as views. -/
def treeValue (m : Machine) (id : DocumentId) (node : Node) : Eval Value := do
  match node with
  | .leaf token => tokenValue m id token
  | .unary .located operand _ => included m id operand
  | .unary op operand start => do applyPrefix op (← m.evaluate id operand) start
  | .reference path sigil => reference m id path sigil
  | .binary op left right => infixValue m id op left right
  | .list elements span => return .listView (← listView id elements span)
  | .mapping entries span => return .mappingView (← mappingView id entries span)
  | .member _ _ | .index _ _ | .slice _ _ => notEvaluable node

/-- The value of an operand; the bounds of a slice have none. -/
def operandValue (m : Machine) (id : DocumentId) : Syntax.Operand → Eval Value
  | .node node => m.evaluate id node
  | .bounds bounds => do
    fail (.notEvaluable (← shown (Node.describeBounds? bounds))) bounds.span.start

/-! ### Lookups -/

/-- Reads a path and follows it. -/
def followText (m : Machine) (id : DocumentId) (path : String) : Eval Value := do
  let source ← fresh
  match Path.ofString path with
  | .ok path => follow m id (path.inSource source)
  | .error e => fail (.invalidPath e) e.location?

/-- Evaluates a lookup; a default takes the place of an error that it covers. -/
def withDefault (default? : Option Value) (body : Eval Value) : Eval (Value × Bool) := do
  match default? with
  | none => return (← body, true)
  | some default =>
    try return (← body, true)
    catch failure =>
      match failure with
      | .error e => if e.category.coveredByDefault then return (default, false) else throw failure
      | other => throw other

/-- What a document has at a key or path, and whether it was found rather than given as default. -/
def found (m : Machine) (id : DocumentId) (root : ViewId) (key : String) (default? : Option Value) :
    Eval (Value × Bool) := do
  match ← entryValue? m root key with
  | some v => return (v, true)
  | none =>
    -- a name leads nowhere else; other keys are paths
    if Path.isIdentifier key then withDefault default? (fail (.notFound key))
    else withDefault default? (followText m id key)

/-- The value of a document at a key or path, with a view at its top evaluated in full. A caching
document keeps the values that it found. -/
def lookupValue (m : Machine) (id : DocumentId) (key : String) (default? : Option Value) :
    Eval Value := do
  match (← document id).cache.bind (·.lookup key) with
  | some v => return v
  | none =>
    match (← document id).root with
    | none => fail .noData
    | some root =>
      let (v, isFound) ← found m id root key default?
      -- a default is given as it is, and is not kept
      if !isFound then return v
      let v ← unwrap m v
      modifyDocument id fun d => { d with cache := d.cache.map ((key, v) :: ·) }
      return v

/-! ### Answers -/

/-- The answer to a request, given the answers to the requests that it makes. -/
def answer (m : Machine) : Request → Eval Value
  | .evaluate id node => treeValue m id node
  | .materialize v => materializeStep m v
  | .lookup id key default? => lookupValue m id key default?

/-- The answer to a request, if evaluations need not stand deeper in one another than given. -/
def answerWithin : Nat → Request → Eval Value
  | 0, _ => throw .exhausted
  | depth + 1, request => answer ⟨answerWithin depth⟩ request

/-- The machine that the environment allows. -/
def machine : Eval Machine := return ⟨answerWithin (← read).depth⟩

end LazyConfig.Evaluation
