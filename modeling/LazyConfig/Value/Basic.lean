import LazyConfig.Calendar.Basic
import LazyConfig.Number.Basic
import LazyConfig.Token.Basic

/-!
# Values

What expressions evaluate to. Scalars, plain lists and plain mappings are complete in themselves; a
view stands for a list or mapping of a document that is evaluated as far as it is looked at, and a
document stands for a whole file. Objects and functions come from outside and are not looked into
beyond their attributes.

Some values are told apart although they look alike. A mark names the object that a value is: the
same token, date or container keeps its mark wherever it is passed on. Of each of the smallest
integers there is one object, and of each of the shortest texts one that stands for all of them that
were not put together from pieces.
-/

namespace LazyConfig

abbrev DocumentId := Nat

abbrev ViewId := Nat

/-- The identity of a value. -/
inductive Mark where
  /-- The value of a literal, wherever it is evaluated. -/
  | written (source : Nat) (location : Location)
  /-- A value that was made while evaluating. -/
  | made (serial : Nat)
  /-- The one object of a short text. -/
  | short (text : String)
deriving DecidableEq, Repr, Inhabited

namespace Mark

/-- The mark of a text: its own one, unless the text is empty or one of the first 256 characters. -/
def ofText (text : String) (own : Mark) : Mark :=
  match text.toList with
  | [] => short text
  | [c] => if c.val < 256 then short text else own
  | _ => own

/-- The mark of a text that was put together from pieces: only the empty text is shared. -/
def ofAssembled (text : String) (own : Mark) : Mark := if text = "" then short text else own

/-- A text of two characters or more is an object of its own. -/
theorem ofText_of_two_le_length {text : String} (own : Mark) (long : 2 ≤ text.length) :
    ofText text own = own := by
  rw [← String.length_toList] at long
  unfold ofText
  split
  case h_1 empty => simp [empty] at long
  case h_2 c single => simp [single] at long
  case h_3 => rfl

end Mark

/-- A parameter of a function. -/
inductive Parameter where
  | required | optional | rest | restNamed | requiredNamed | optionalNamed
deriving DecidableEq, Repr

/-- Whether a call must give an argument for the parameter. -/
def Parameter.isNeeded : Parameter → Bool
  | required | requiredNamed => true
  | _ => false

inductive Value where
  | null
  /-- The absence of a value, which differs from `null`. -/
  | absent
  | bool (value : Bool)
  | number (value : Number) (mark : Mark)
  | text (value : String) (mark : Mark)
  | date (value : Calendar.Date) (mark : Mark)
  | dateTime (value : Calendar.DateTime) (mark : Mark)
  | list (items : List Value) (mark : Mark)
  | dict (entries : List (String × Value)) (mark : Mark)
  | object (name : String) (attributes : List (String × Value)) (mark : Mark)
  /-- A function; the parameters of some functions are unknown. -/
  | function (name : String) (parameters : Option (List Parameter)) (result : Value) (mark : Mark)
  | listView (id : ViewId)
  | mappingView (id : ViewId)
  | document (id : DocumentId)
deriving Inhabited

namespace Value

/-- The name of the value's type in messages. -/
def typeName : Value → String
  | null => "_Null"
  | absent => "NoneType"
  | bool _ => "bool"
  | number (.int _) _ => "int"
  | number (.float _) _ => "float"
  | number (.complex _) _ => "complex"
  | text _ _ => "str"
  | date _ _ => "datetime.date"
  | dateTime _ _ => "datetime.datetime"
  | list _ _ => "list"
  | dict _ _ => "dict"
  | object _ _ _ => "object"
  | function _ _ _ _ => "function"
  | listView _ => "ListView"
  | mappingView _ => "MappingView"
  | document _ => "Config"

/-- The mark of a value that has one. -/
def mark? : Value → Option Mark
  | number _ mark => some mark
  | text _ mark => some mark
  | date _ mark => some mark
  | dateTime _ mark => some mark
  | list _ mark => some mark
  | dict _ mark => some mark
  | object _ _ mark => some mark
  | function _ _ _ mark => some mark
  | _ => none

/-- Whether there is only one object for an integer. -/
def isSmall (n : Int) : Bool := -5 ≤ n && n ≤ 256

/-- Whether two values are the same object. -/
def same : Value → Value → Bool
  | number (.int m) a, number (.int n) b => a = b || (m = n && isSmall m)
  | null, null => true
  | absent, absent => true
  | bool a, bool b => a = b
  | listView a, listView b => a = b
  | mappingView a, mappingView b => a = b
  | document a, document b => a = b
  | a, b => a.mark?.isSome && a.mark? = b.mark?

/-- The value of a literal that stands at the given place. -/
def ofLiteral (span : Span) (literal : Token.Literal) : Value :=
  let own := Mark.written span.source span.start
  match literal with
  | .absent => absent
  | .null => null
  | .bool b => bool b
  | .int n => number (.int n) own
  | .float x => number (.float x) own
  | .imaginary x => number (.complex ⟨0, x⟩) own
  | .text s => text s (.ofText s own)
  | .assembled s => text s (.ofAssembled s own)

/-- An attribute of an object; other values have none. -/
def attribute? (v : Value) (name : String) : Option Value :=
  match v with
  | object _ attributes _ => attributes.lookup name
  | _ => none

end Value

end LazyConfig
