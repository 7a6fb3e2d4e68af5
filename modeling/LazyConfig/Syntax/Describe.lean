import LazyConfig.Syntax.Node
import LazyConfig.Number.Decimal

/-!
# Trees in messages

The text by which error messages and views show a tree: its operators by the names of their kinds,
its tokens by kind, text and value. A tree with an integer beyond the limit on decimal digits
cannot be shown.
-/

namespace LazyConfig

namespace Token

/-- The value of a token as messages show it. -/
def Literal.describe? : Literal → Option String
  | .absent => some "None"
  | .null => some "null"
  | .bool value => some (if value then "True" else "False")
  | .int value => Decimal.intText? value
  | .float value => some (Decimal.text value)
  | .imaginary value => some (Decimal.partText value ++ "j")
  | .text value | .assembled value => some value

end Token

def Token.describe? (t : Token) : Option String := do
  return s!"Token({t.kind.name}:{t.text}:{← t.value.describe?})"

namespace Node

mutual

def describe? : Node → Option String
  | leaf token => token.describe?
  | unary op operand _ => do
    return s!"UnaryNode({op.kind.name}, {← operand.describe?})"
  | reference path _ => do
    return s!"UnaryNode({Token.Kind.dollar.name}, {← path.describe?})"
  | binary op left right => do
    return s!"BinaryNode({op.kind.name}, {← left.describe?}, {← right.describe?})"
  | member base name => do
    return s!"BinaryNode({Token.Kind.dot.name}, {← base.describe?}, {← name.describe?})"
  | index base operand => do
    return s!"BinaryNode({Token.Kind.leftBracket.name}, {← base.describe?}, {← operand.describe?})"
  | slice base bounds => do
    return s!"BinaryNode({Token.Kind.colon.name}, {← base.describe?}, {← describeBounds? bounds})"
  | list elements _ => do
    return "ListNode([" ++ ", ".intercalate (← describeAll? elements) ++ "])"
  | mapping entries _ => do
    return "MappingNode([" ++ ", ".intercalate (← describeEntries? entries) ++ "])"

def describeBounds? : Syntax.Bounds Node → Option String
  | ⟨start, stop, step, _⟩ => do
    let start ← describeBound? start
    let stop ← describeBound? stop
    let step ← describeBound? step
    return s!"SliceNode({start}:{stop}:{step})"

def describeBound? : Option Node → Option String
  | none => some "None"
  | some bound => bound.describe?

def describeAll? : List Node → Option (List String)
  | [] => some []
  | node :: rest => do return (← node.describe?) :: (← describeAll? rest)

def describeEntries? : List (Token × Node) → Option (List String)
  | [] => some []
  | (key, node) :: rest => do
    return s!"({← key.describe?}, {← node.describe?})" :: (← describeEntries? rest)

end

end Node

end LazyConfig
