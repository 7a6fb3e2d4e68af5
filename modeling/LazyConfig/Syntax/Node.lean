import LazyConfig.Syntax.Operator

/-!
# Syntax trees

The tree of an expression or of a whole document. Its leaves are tokens; a parenthesis leaves no
trace. Every tree has a span, and the trees of one text have one source. A reference also keeps
where its sigil stands, which tells it from every other reference of the text.
-/

namespace LazyConfig

namespace Syntax

/-- The bounds of a slice, between its brackets. -/
structure Bounds (α : Type) where
  start : Option α
  stop : Option α
  step : Option α
  span : Span

end Syntax

open Syntax (PrefixOp InfixOp Bounds)

inductive Node where
  | leaf (token : Token)
  | unary (op : PrefixOp) (operand : Node) (start : Location)
  | reference (path : Node) (sigil : Location)
  | binary (op : InfixOp) (left right : Node)
  | member (base : Node) (name : Token)
  | index (base operand : Node)
  | slice (base : Node) (bounds : Bounds Node)
  | list (elements : List Node) (span : Span)
  | mapping (entries : List (Token × Node)) (span : Span)

namespace Node

def source : Node → Nat
  | leaf token => token.span.source
  | unary _ operand _ => operand.source
  | reference path _ => path.source
  | binary _ left _ => left.source
  | member base _ => base.source
  | index base _ => base.source
  | slice base _ => base.source
  | list _ span => span.source
  | mapping _ span => span.source

/-- The location of the first character. -/
def start : Node → Location
  | leaf token => token.span.start
  | unary _ _ start => start
  | reference path _ => path.start
  | binary _ left _ => left.start
  | member base _ => base.start
  | index base _ => base.start
  | slice base _ => base.start
  | list _ span => span.start
  | mapping _ span => span.start

/-- The location of the last character. The brackets of a reference and of an index are outside. -/
def stop : Node → Location
  | leaf token => token.span.stop
  | unary _ operand _ => operand.stop
  | reference path _ => path.stop
  | binary _ _ right => right.stop
  | member _ name => name.span.stop
  | index _ operand => operand.stop
  | slice _ bounds => bounds.span.stop
  | list _ span => span.stop
  | mapping _ span => span.stop

def span (n : Node) : Span := ⟨n.source, n.start, n.stop⟩

end Node

namespace Syntax

/-- Where an operand of a tree stands: alone behind a prefix, or on one side. -/
inductive Side where
  | only | left | right
deriving DecidableEq, Repr

/-- What stands on a side: a tree, or the bounds of a slice. -/
inductive Operand where
  | node (node : Node)
  | bounds (bounds : Bounds Node)

/-- What may follow a primary: a name, an index or a slice. -/
inductive Trailer where
  | member (name : Token)
  | index (operand : Node)
  | slice (bounds : Bounds Node)

def Trailer.apply (base : Node) : Trailer → Node
  | .member name => .member base name
  | .index operand => .index base operand
  | .slice bounds => .slice base bounds

end Syntax

/-- The operand of a tree on a side, if it has one there. -/
def Node.operand? : Node → Syntax.Side → Option Syntax.Operand
  | unary _ operand _, .only => some (.node operand)
  | reference path _, .only => some (.node path)
  | binary _ left _, .left => some (.node left)
  | binary _ _ right, .right => some (.node right)
  | member base _, .left => some (.node base)
  | member _ name, .right => some (.node (leaf name))
  | index base _, .left => some (.node base)
  | index _ operand, .right => some (.node operand)
  | slice base _, .left => some (.node base)
  | slice _ bounds, .right => some (.bounds bounds)
  | _, _ => none

/-! ### The source of a tree -/

def Token.inSource (source : Nat) (t : Token) : Token :=
  { t with span := { t.span with source } }

namespace Node

mutual

/-- The tree as one of the given source, which every token and span in it names. -/
def inSource (source : Nat) : Node → Node
  | leaf token => leaf (token.inSource source)
  | unary op operand start => unary op (operand.inSource source) start
  | reference path sigil => reference (path.inSource source) sigil
  | binary op left right => binary op (left.inSource source) (right.inSource source)
  | member base name => member (base.inSource source) (name.inSource source)
  | index base operand => index (base.inSource source) (operand.inSource source)
  | slice base bounds => slice (base.inSource source) (boundsInSource source bounds)
  | list elements span => list (allInSource source elements) { span with source }
  | mapping entries span => mapping (entriesInSource source entries) { span with source }

def boundsInSource (source : Nat) : Bounds Node → Bounds Node
  | ⟨start, stop, step, span⟩ =>
    ⟨boundInSource source start, boundInSource source stop, boundInSource source step,
      { span with source }⟩

def boundInSource (source : Nat) : Option Node → Option Node
  | none => none
  | some bound => some (bound.inSource source)

def allInSource (source : Nat) : List Node → List Node
  | [] => []
  | node :: rest => node.inSource source :: allInSource source rest

def entriesInSource (source : Nat) : List (Token × Node) → List (Token × Node)
  | [] => []
  | (key, node) :: rest => (key.inSource source, node.inSource source) :: entriesInSource source rest

end

end Node

end LazyConfig
