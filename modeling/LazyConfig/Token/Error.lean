import LazyConfig.Text.Encoding
import LazyConfig.Token.Basic

/-!
# Lexical errors

Why a text cannot be split into tokens, and where the offending characters stand.
-/

namespace LazyConfig.Token

/-- What is wrong with the text of a token. -/
inductive Fault where
  /-- A malformed escape, by its place in the text. -/
  | escape (index : Nat)
  /-- An underscore that follows no digit, with the number up to it. -/
  | underscore (text : String)
  /-- A number that ends in an underscore. -/
  | trailingUnderscore (text : String)
  /-- A number that denotes no value, or the character that follows a number too closely. -/
  | number (text : String)
  | openString (text : String)
  | openBacktick (text : String)
  | character (c : Char)
  /-- The text breaks off before bytes that stand for no character. -/
  | undecodable (bytes : Text.Malformed)
deriving DecidableEq, Repr

def Fault.message : Fault → String
  | .escape index => s!"Invalid escape sequence at index {index}"
  | .underscore text => "Invalid '_' in number: " ++ text
  | .trailingUnderscore text => "Invalid '_' at end of number: " ++ text
  | .number text => "Invalid character in number: " ++ text
  | .openString text => "Unterminated quoted string: " ++ text
  | .openBacktick text => "Unterminated `-string: " ++ text
  | .character c => "Unexpected character: " ++ c.toString
  | .undecodable bytes => bytes.message

structure Error where
  fault : Fault
  location : Location
deriving DecidableEq, Repr

/-- A fault in the token at hand: how many of its characters stand before the offending one, and
how many characters have been read when it is noticed. It `peeks` if one more has been asked for. -/
structure Misread where
  fault : Fault
  offset : Nat
  length : Nat
  peeks : Bool
deriving DecidableEq, Repr

/-- A token found at the head of a text: its kind, how many characters it takes, and its value. It
`peeks` if the character behind it has been asked for, to see that the token ends there. -/
structure Lexeme where
  kind : Kind
  length : Nat
  value : Literal
  peeks : Bool
deriving DecidableEq

end LazyConfig.Token
