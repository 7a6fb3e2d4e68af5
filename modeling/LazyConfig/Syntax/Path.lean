import LazyConfig.Syntax.Describe
import LazyConfig.Syntax.Parser

/-!
# Paths

A path is a leading word and the steps after it. Every tree can be taken for a path: its steps are
read off its left spine, on which signs and reference brackets count for nothing and an operator
counts as a step with its right operand. `source` writes a path back as text.
-/

namespace LazyConfig

open Syntax (Bounds InfixOp)

/-- A step of a path, from a container to something inside it. -/
inductive Step where
  | member (name : String)
  | index (operand : Node)
  | slice (bounds : Bounds Node)
  | operator (op : InfixOp) (operand : Node)

/-- The kind that names the step. -/
def Step.kind : Step → Token.Kind
  | .member _ => .dot
  | .index _ => .leftBracket
  | .slice _ => .colon
  | .operator op _ => op.kind

namespace Token

/-- The text of a word token. -/
def name (t : Token) : String := t.value.text?.getD t.text

end Token

namespace Node

/-- The token that a tree starts from as a path, if its left spine ends in one. -/
def head? : Node → Option Token
  | leaf token => some token
  | unary _ operand _ => operand.head?
  | reference path _ => path.head?
  | binary _ left _ => left.head?
  | member base _ => base.head?
  | index base _ => base.head?
  | slice base _ => base.head?
  | list _ _ => none
  | mapping _ _ => none

/-- The steps of a tree as a path, the last step first. -/
def stepsReversed : Node → List Step
  | leaf _ => []
  | unary _ operand _ => operand.stepsReversed
  | reference path _ => path.stepsReversed
  | binary op left right => .operator op right :: left.stepsReversed
  | member base name => .member name.name :: base.stepsReversed
  | index base operand => .index operand :: base.stepsReversed
  | slice base bounds => .slice bounds :: base.stepsReversed
  | list _ _ => []
  | mapping _ _ => []

/-- The steps of a tree as a path, in the order in which they are taken. -/
def steps (n : Node) : List Step := n.stepsReversed.reverse

end Node

/-! ### Writing a path as text -/

namespace Path

/-- Why a tree cannot be written as a path. -/
inductive SourceFault where
  /-- The tree neither starts with a token nor has a step. -/
  | noHead
  /-- The tree starts with a step. -/
  | stepFirst
  /-- An operator stands on the left spine. -/
  | operator
  /-- The tree with an operator on its left spine, as messages show it. -/
  | notAPath (shown : String) (location : Location)
  /-- The text would need an integer of too many digits. -/
  | tooManyDigits
deriving DecidableEq, Repr

/-- A tree that starts with a step fails on that step. -/
def beforeStep : Except SourceFault String → Except SourceFault String
  | .error .noHead => .error .stepFirst
  | result => result

/-- The text of a tree from that of its spine: a single token is written as it was read. -/
def ofSpine (node : Node) (spine : Except SourceFault String) : Except SourceFault String :=
  match node, spine with
  | .leaf token, _ => .ok token.text
  | _, .error .operator =>
    match node.describe? with
    | some shown => .error (.notAPath shown node.start)
    | none => .error .tooManyDigits
  | _, result => result

mutual

/-- The text of the steps on the left spine behind the value of the leading token. -/
def spine : Node → Except SourceFault String
  | .leaf token =>
    match token.value.describe? with
    | some text => .ok text
    | none => .error .tooManyDigits
  | .unary _ operand _ => spine operand
  | .reference path _ => spine path
  | .binary _ left _ => do
    let _ ← beforeStep (spine left)
    throw .operator
  | .member base name => do return (← beforeStep (spine base)) ++ "." ++ name.name
  | .index base operand => do
    let base ← beforeStep (spine base)
    return base ++ "[" ++ (← ofSpine operand (spine operand)) ++ "]"
  | .slice base bounds => do
    let base ← beforeStep (spine base)
    return base ++ (← boundsText bounds)
  | .list _ _ => .error .noHead
  | .mapping _ _ => .error .noHead

def boundsText : Bounds Node → Except SourceFault String
  | ⟨start, stop, step, _⟩ => do
    let start ← boundText "" start
    let stop ← boundText ":" stop
    let step ← boundText ":" step
    return "[" ++ start ++ (if stop = "" then ":" else stop) ++ step ++ "]"

/-- A bound behind its colon; nothing for an absent one. -/
def boundText (mark : String) : Option Node → Except SourceFault String
  | none => .ok ""
  | some bound => do return mark ++ (← ofSpine bound (spine bound))

end

end Path

/-- The text of a tree as a path. -/
def Node.sourceText (n : Node) : Except Path.SourceFault String := Path.ofSpine n (Path.spine n)

/-! ### Reading a path -/

namespace Path

/-- A text that is no path, and the error that reading it met, if any. -/
structure Invalid where
  text : String
  cause : Option Syntax.Error
deriving DecidableEq, Repr

def Invalid.message (e : Invalid) : String := "Invalid path: " ++ e.text

def Invalid.location? (e : Invalid) : Option Location := e.cause.bind Syntax.Error.location?

/-- A word and its trailers, up to the end of the text; `none` if the text is read without an error
but is no path. -/
def parser : Syntax.Parser (Option Node) := do
  if (← Syntax.Parser.kind) ≠ .word then return none
  let path ← Syntax.withNesting Syntax.primary
  if ← Syntax.Parser.atEnd then return some path else return none

/-- Reads a path such as `server.ports[0]`. -/
def ofString (text : String) : Except Invalid Node :=
  match Token.Stream.ofString text with
  | .error e => .error ⟨text, some (.token e)⟩
  | .ok stream =>
    match (parser.run stream).1 with
    | .error e => .error ⟨text, some e⟩
    | .ok none => .error ⟨text, none⟩
    | .ok (some path) => .ok path

/-- Whether a text consists of word characters and does not start with a decimal digit. -/
def isIdentifier (text : String) : Bool :=
  match text.toList with
  | [] => false
  | first :: rest =>
    Text.isWordChar first && !Text.isDecimal first && rest.all Text.isWordChar

end Path

end LazyConfig
