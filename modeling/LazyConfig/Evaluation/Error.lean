import LazyConfig.Syntax.Path
import LazyConfig.Value.Compare
import LazyConfig.World.Registry
import LazyConfig.World.FileTree

/-!
# Errors of documents

Why a document cannot be loaded or a value cannot be computed. Each cause belongs to a category,
which decides whether a default covers it. Other failures are no fault of the document as such: a
missing file, or a number that is too long to be shown.
-/

namespace LazyConfig

open Syntax (PrefixOp InfixOp)

namespace Evaluation

/-- Why an operator has no result although its operands are of the right types. -/
inductive Reason where
  | arithmetic (fault : Arithmetic.Fault)
  | order (fault : Value.OrderFault)
  | tooManyDigits
  | undecodable (bytes : Text.Malformed)
deriving DecidableEq, Repr

def Reason.message : Reason → String
  | arithmetic fault => fault.message
  | order fault => fault.message
  | tooManyDigits =>
    "Exceeds the limit (4300 digits) for integer string conversion; " ++
      "use sys.set_int_max_str_digits() to increase the limit"
  | undecodable bytes => bytes.message

inductive Category where
  | token | grammar | evaluation | invalidPath | notFound | badIndex | circular | conversion
  | duplicateKey | inclusion
deriving DecidableEq, Repr

/-- What went wrong. Values and trees are held as messages show them, since what a view shows can
change later. -/
inductive Cause where
  | malformed (error : Syntax.Error)
  | rootNotMapping
  | noData
  | duplicateKey (key : String) (location previous : Location)
  | unknownVariable (name : String)
  | notEvaluable (shown : String)
  | operand (op : PrefixOp) (shown : String)
  | operands (op : InfixOp) (left right : String) (reason : Option Reason)
  | notBoolean (shown : String)
  | notFileName (shown : String)
  | notLocated (name : String)
  | includesItself (name : String)
  | invalidPath (error : Path.Invalid)
  | notAPath (location : Location)
  | noSource (shown : String)
  | notFound (name : String)
  | notInteger (shown : String)
  | notString (shown : String)
  | notAList
  | zeroStep
  | outOfRange (index last : String)
  | circular (entries : List String)
  | notConverted (text : String)
  | needsArguments (member : String)
deriving DecidableEq, Repr

def verb : InfixOp → String
  | .add => "add"
  | .subtract => "subtract"
  | .multiply => "multiply"
  | .divide => "divide"
  | .intDivide => "integer-divide"
  | .modulo => "compute modulo of"
  | .power => "raise to a power"
  | .shiftLeft => "left-shift"
  | .shiftRight => "right-shift"
  | .bitAnd => "bitwise-and"
  | .bitOr => "bitwise-or"
  | .bitXor => "bitwise-xor"
  | .isIn | .notIn => "test membership of"
  | _ => "compare"

def prefixVerb : PrefixOp → String
  | .minus => "negate"
  | .plus => "apply unary plus to"
  | .not => "apply 'not' to"
  | _ => "complement"

namespace Cause

def category : Cause → Category
  | malformed (.token _) => .token
  | malformed _ => .grammar
  | invalidPath _ | notAPath _ => .invalidPath
  | notFound _ => .notFound
  | notInteger _ | notString _ | notAList | zeroStep | outOfRange _ _ => .badIndex
  | circular _ => .circular
  | notConverted _ => .conversion
  | duplicateKey _ _ _ => .duplicateKey
  | notLocated _ | includesItself _ => .inclusion
  | _ => .evaluation

def message : Cause → String
  | malformed error => error.message
  | rootNotMapping => "Root configuration must be a mapping"
  | noData => "No data in configuration"
  | duplicateKey key location previous =>
    s!"Duplicate key {key} seen at {location.text} (previously at {previous.text})"
  | unknownVariable name => s!"Unknown variable '{name}'"
  | notEvaluable shown => "Unable to evaluate " ++ shown
  | operand op shown => s!"unable to {prefixVerb op} {shown}"
  | operands op left right reason =>
    s!"unable to {verb op} {left} and {right}" ++
      (reason.map fun r => ": " ++ r.message).getD ""
  | notBoolean shown => "boolean required, but found " ++ shown
  | notFileName shown => "@ operand must be a string, but is " ++ shown
  | notLocated name => "Unable to locate " ++ name
  | includesItself name => "Configuration cannot include itself: " ++ name
  | invalidPath error => error.message
  | notAPath location => "Invalid path at " ++ location.text
  | noSource shown => "unable to compute source for " ++ shown
  | notFound name => "Not found in configuration: " ++ name
  | notInteger shown => "integer required, but found " ++ shown
  | notString shown => "string required, but found " ++ shown
  | notAList => "slices can only operate on lists"
  | zeroStep => "slice step cannot be zero"
  | outOfRange index last => s!"index out of range: is {index}, must be between 0 and {last}"
  | circular entries => "Circular reference: " ++ ", ".intercalate entries
  | notConverted text => "Unable to convert string " ++ text
  | needsArguments member => "Method should not have parameters: " ++ member

end Cause

/-- An error of the document, and where it stands, if that is known. -/
structure Error where
  cause : Cause
  location : Option Location := none
deriving DecidableEq, Repr

def Error.message (e : Error) : String := e.cause.message

def Error.category (e : Error) : Category := e.cause.category

/-- Whether a default takes the place of a value that this kind of error keeps from being found. -/
def Category.coveredByDefault : Category → Bool
  | .token | .grammar | .invalidPath | .badIndex | .circular | .duplicateKey | .inclusion => false
  | .evaluation | .notFound | .conversion => true

def Error.ofSyntax (e : Syntax.Error) : Error := ⟨.malformed e, e.location?⟩

/-- Failures that are no fault of the document. -/
inductive HostFault where
  | tooManyDigits
  /-- A path that starts with no token is to be shown. -/
  | noHead
  /-- The same while the elements of a container are gone through. -/
  | brokenIteration
  /-- A path that starts with a step is to be shown, or a document without data is followed. -/
  | noAttribute
  /-- A name leads to no file that can be read. -/
  | file (fault : FileTree.Fault)
  | undecodable (bytes : Text.Malformed)
  | indexRange
  /-- A value has no items, or none that a key of this type stands for. -/
  | noItems
deriving DecidableEq, Repr

/-- Why an evaluation has no value. -/
inductive Failure where
  | error (error : Error)
  | host (fault : HostFault)
  /-- The depth of evaluation that was allowed does not suffice. -/
  | exhausted
deriving DecidableEq, Repr

/-- What an error of a text makes of the evaluation that reads it. A file whose bytes stand for no
characters is no fault of the document. -/
def Failure.ofSyntax : Syntax.Error → Failure
  | .token ⟨.undecodable bytes, _⟩ => .host (.undecodable bytes)
  | e => .error (.ofSyntax e)

/-- A failure that a text longer than the limit, or a malformed file, causes inside an operator. -/
def HostFault.reason? : HostFault → Option Reason
  | .tooManyDigits => some .tooManyDigits
  | .undecodable bytes => some (.undecodable bytes)
  | _ => none

end Evaluation

end LazyConfig
