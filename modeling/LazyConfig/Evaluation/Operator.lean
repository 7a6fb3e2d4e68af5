import LazyConfig.Evaluation.Describe
import LazyConfig.Evaluation.View

/-!
# Operators

The infix operators on values. An operator has a value, does not apply to operands of these types,
or refuses these operands for a reason. Arithmetic takes numbers, and truth values are no numbers;
`+`, `|` and `-` also join, merge and reduce containers; comparisons look at complete values.
-/

namespace LazyConfig.Evaluation

open Eval
open Syntax (InfixOp)

/-- What an operator makes of its operands. -/
inductive Outcome where
  | value (v : Value)
  | inapplicable
  | refused (reason : Reason)

namespace Outcome

def ofBool (b : Bool) : Outcome := .value (.bool b)

def negate : Outcome → Outcome
  | .value (.bool b) => .value (.bool (!b))
  | other => other

end Outcome

/-- An operator on numbers. -/
def onNumbers (f : Number → Number → Except Arithmetic.Fault Number) (left right : Value) :
    Eval Outcome := do
  match left, right with
  | .number a _, .number b _ =>
    match f a b with
    | .ok n => return .value (← newNumber n)
    | .error fault => return .refused (.arithmetic fault)
  | _, _ => return .inapplicable

/-- An operator on integers. -/
def onInts (f : Int → Int → Except Arithmetic.Fault Int) (left right : Value) : Eval Outcome := do
  match left, right with
  | .number (.int a) _, .number (.int b) _ =>
    match f a b with
    | .ok n => return .value (← newNumber (.int n))
    | .error fault => return .refused (.arithmetic fault)
  | _, _ => return .inapplicable

def onBits (f : Int → Int → Int) : Value → Value → Eval Outcome :=
  onInts fun a b => .ok (f a b)

variable (m : Machine) (owner : DocumentId)

/-- The merge of two mappings. -/
def mergeViews (left right : ViewId) : Eval Outcome := do
  let base ← asDict m left
  let update ← asDict m right
  return .value (← mergedView owner base update)

def add (left right : Value) : Eval Outcome := do
  match left, right with
  | .mappingView a, .mappingView b => mergeViews m owner a b
  | .listView a, .listView b =>
    let items := (← elements m a) ++ (← elements m b)
    return .value (.listView (← addView (.list owner (items.map .value))))
  -- a text stays the object that it is when nothing is added to it
  | .text "" _, .text t mark => return .value (.text t mark)
  | .text s mark, .text "" _ => return .value (.text s mark)
  | .text s _, .text t _ => return .value (← joinedText (s ++ t))
  | _, _ => onNumbers Number.add left right

/-- The entries of a mapping whose keys are not in another one. -/
def withoutKeys (left right : ViewId) : Eval Outcome := do
  match ← asDict m left with
  | .dict items mark =>
    let others ← keys right
    return .value (← toView owner (.dict (items.filter fun (key, _) => !others.contains key) mark))
  | _ => return .inapplicable

def subtract (left right : Value) : Eval Outcome := do
  match left, right with
  | .mappingView a, .mappingView b => withoutKeys m owner a b
  | _, _ => onNumbers Number.sub left right

def bitOr (left right : Value) : Eval Outcome := do
  match left, right with
  | .mappingView a, .mappingView b => mergeViews m owner a b
  | _, _ => onBits Bitwise.or left right

/-- The power of two numbers. -/
def power (left right : Value) : Eval Outcome := onNumbers Number.power left right

def isBool : Value → Bool
  | .bool _ => true
  | _ => false

def order (op : OrderOp) (left right : Value) : Eval Outcome := do
  if isBool left || isBool right then return .inapplicable
  let a ← m.materialize left
  let b ← m.materialize right
  match Value.order op a b with
  | .ok holds => return .ofBool holds
  | .error fault => return .refused (.order fault)

def equal (left right : Value) : Eval Outcome := do
  let a ← m.materialize left
  let b ← m.materialize right
  return .ofBool (a.equal b)

/-- Whether a text contains another one. -/
def isPart (part : List Char) : List Char → Bool
  | [] => part.isEmpty
  | c :: rest => part.isPrefixOf (c :: rest) || isPart part rest

/-- Whether the left operand is in the right one: an element, a key, or a part of a text. -/
def isIn (left right : Value) : Eval Outcome := do
  match right, left with
  | .listView id, v =>
    let v ← m.materialize v
    match ← asList m id with
    | .list items _ => return .ofBool (v.elementOf items)
    | _ => return .inapplicable
  | .mappingView id, .text key _ => return .ofBool (← hasKey id key)
  | .document id, .text key _ =>
    match (← document id).root with
    | some root => return .ofBool (← hasKey root key)
    | none => return .ofBool false
  | .text whole _, .text part _ => return .ofBool (isPart part.toList whole.toList)
  | _, _ => return .inapplicable

def isContainer : Value → Bool
  | .list _ _ | .dict _ _ | .listView _ | .mappingView _ | .document _ => true
  | _ => false

/-- Containers are identical if they are the same object, other values if they agree in type and
value. -/
def identical (left right : Value) : Bool :=
  if isContainer left || isContainer right then left.same right
  else left.typeName = right.typeName && left.equal right

/-- The value of an operator on two operands. -/
def apply (op : InfixOp) (left right : Value) : Eval Outcome :=
  match op with
  | .add => add m owner left right
  | .subtract => subtract m owner left right
  | .multiply => onNumbers Number.mul left right
  | .divide => onNumbers Number.div left right
  | .intDivide => onInts Number.intDiv left right
  | .modulo => onInts Number.modulo left right
  | .power => power left right
  | .shiftLeft => onInts Number.shiftLeft left right
  | .shiftRight => onInts Number.shiftRight left right
  | .bitAnd => onBits Bitwise.and left right
  | .bitOr => bitOr m owner left right
  | .bitXor => onBits Bitwise.xor left right
  | .less => order m .less left right
  | .lessEqual => order m .lessEqual left right
  | .greater => order m .greater left right
  | .greaterEqual => order m .greaterEqual left right
  | .equal => equal m left right
  | .unequal | .altUnequal => return (← equal m left right).negate
  | .isIn => isIn m left right
  | .notIn => return (← isIn m left right).negate
  | .is => return .ofBool (identical left right)
  | .isNot => return .ofBool (!identical left right)
  | .and | .or => return .inapplicable

/-- The outcome of an operator; a number or a file inside the operands that cannot be turned into
text or read counts as a reason to refuse them. -/
def outcome (op : InfixOp) (left right : Value) : Eval Outcome := do
  try apply m owner op left right catch failure =>
    match failure with
    | .host fault => match fault.reason? with
      | some reason => return .refused reason
      | none => throw failure
    | other => throw other

/-- Applies an operator, which stands at the given location. The operands are described before it
is applied, since applying it can change what views show. -/
def applyInfix (op : InfixOp) (left right : Value) (location : Location) : Eval Value := do
  -- an operand that cannot be described is a failure even where the operator has a value
  let a ← describe left
  let b ← describe right
  match ← outcome m owner op left right with
  | .value v => return v
  | .inapplicable => fail (.operands op a b none) location
  | .refused reason => fail (.operands op a b (some reason)) location

/-- Applies a sign, a complement or a negation. -/
def applyPrefix (op : Syntax.PrefixOp) (operand : Value) (location : Location) : Eval Value := do
  match op, operand with
  | .minus, .number n _ => newNumber n.neg
  | .plus, .number n mark => return .number n mark
  | .complement, .number (.int n) _ => newNumber (.int (Bitwise.complement n))
  | .not, .bool b => return .bool (!b)
  | op, v => fail (.operand op (← describe v)) location

end LazyConfig.Evaluation
