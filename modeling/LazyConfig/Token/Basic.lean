import LazyConfig.Location

/-!
# Tokens

The kinds of token, the values that literals have, and tokens themselves: a kind, the text the
token was read from, its value and its span.
-/

namespace LazyConfig

namespace Token

inductive Kind where
  | eof | word | integer | float | string | newline
  | leftCurly | rightCurly | leftBracket | rightBracket | leftParenthesis | rightParenthesis
  | lessThan | greaterThan | lessThanOrEqual | greaterThanOrEqual
  | assign | equal | unequal | altUnequal | leftShift | rightShift
  | dot | comma | colon | at | plus | minus | star | power | slash | slashSlash | modulo
  | backTick | dollar | true | false | none | is | in | not | and | or
  | bitwiseAnd | bitwiseOr | bitwiseXor | bitwiseComplement | complex | isNot | notIn
deriving DecidableEq, Repr, Inhabited

/-- The name of the kind in messages. -/
def Kind.name : Kind → String
  | .eof => "EOF"
  | .word => "Word"
  | .integer => "Integer"
  | .float => "Float"
  | .string => "String"
  | .newline => "Newline"
  | .leftCurly => "LeftCurly"
  | .rightCurly => "RightCurly"
  | .leftBracket => "LeftBracket"
  | .rightBracket => "RightBracket"
  | .leftParenthesis => "LeftParenthesis"
  | .rightParenthesis => "RightParenthesis"
  | .lessThan => "LessThan"
  | .greaterThan => "GreaterThan"
  | .lessThanOrEqual => "LessThanOrEqual"
  | .greaterThanOrEqual => "GreaterThanOrEqual"
  | .assign => "Assign"
  | .equal => "Equal"
  | .unequal => "Unequal"
  | .altUnequal => "AltUnequal"
  | .leftShift => "LeftShift"
  | .rightShift => "RightShift"
  | .dot => "Dot"
  | .comma => "Comma"
  | .colon => "Colon"
  | .at => "At"
  | .plus => "Plus"
  | .minus => "Minus"
  | .star => "Star"
  | .power => "Power"
  | .slash => "Slash"
  | .slashSlash => "SlashSlash"
  | .modulo => "Modulo"
  | .backTick => "BackTick"
  | .dollar => "Dollar"
  | .true => "True"
  | .false => "False"
  | .none => "None"
  | .is => "Is"
  | .in => "In"
  | .not => "Not"
  | .and => "And"
  | .or => "Or"
  | .bitwiseAnd => "BitwiseAnd"
  | .bitwiseOr => "BitwiseOr"
  | .bitwiseXor => "BitwiseXor"
  | .bitwiseComplement => "BitwiseComplement"
  | .complex => "Complex"
  | .isNot => "IsNot"
  | .notIn => "NotIn"

/-- The value of a token. Punctuation has none; a word, a string and an operator word have a text;
an imaginary literal has its imaginary part. A text that stands as it is in one piece of the source
is told from one that is put together, out of escapes or of several strings. -/
inductive Literal where
  | absent
  | null
  | bool (value : Bool)
  | int (value : Int)
  | float (value : Float)
  | imaginary (value : Float)
  | text (value : String)
  | assembled (value : String)
deriving DecidableEq, Inhabited

/-- The text that a value is. -/
def Literal.text? : Literal → Option String
  | .text value | .assembled value => some value
  | _ => none

end Token

structure Token where
  kind : Token.Kind
  text : String
  value : Token.Literal := .absent
  span : Span := {}
deriving DecidableEq, Inhabited

end LazyConfig
