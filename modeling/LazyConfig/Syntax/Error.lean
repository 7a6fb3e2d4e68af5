import LazyConfig.Token.Error

/-!
# Syntax errors

Why a sequence of tokens does not follow the grammar. An error names the kinds of token that were
found and wanted, and stands where the offending token starts.
-/

namespace LazyConfig.Syntax

open Token (Kind)

inductive Fault where
  | expected (wanted found : Kind)
  | noValue (found : Kind)
  | noOperand (found : Kind)
  | notOneIndex (location : Location) (count : Nat)
  | noKey (found : Kind)
  | noSeparator (found : Kind)
  | afterEntry (found : Kind)
  | noContainer (found : Kind)
deriving DecidableEq, Repr

def Fault.message : Fault → String
  | .expected wanted found => s!"Expected {wanted.name} but got {found.name}"
  | .noValue found => "Unexpected when looking for value: " ++ found.name
  | .noOperand found => "Unexpected: " ++ found.name
  | .notOneIndex location count =>
    s!"Invalid index at {location.text}: expected 1 expression, found {count}"
  | .noKey found => "Unexpected type for key: " ++ found.name
  | .noSeparator found => "Expected key-value separator, found: " ++ found.name
  | .afterEntry found => "Unexpected following value: " ++ found.name
  | .noContainer found => "Unexpected type for container: " ++ found.name

/-- An error of the lexer or of the grammar. A string that follows a token cannot be joined to it
if the token's value is no text. `exhausted` marks a run out of the budget that bounds
loops and nesting, which the budgets of this library are large enough to rule out. -/
inductive Error where
  | token (error : Token.Error)
  | grammar (fault : Fault) (location : Location)
  | notJoined (first : Kind)
  | exhausted
deriving DecidableEq, Repr

def Error.message : Error → String
  | .token error => error.fault.message
  | .grammar fault _ => fault.message
  | .notJoined first => "Unable to join strings to " ++ first.name
  | .exhausted => "Nesting too deep"

def Error.location? : Error → Option Location
  | .token error => some error.location
  | .grammar _ location => some location
  | .notJoined _ | .exhausted => none

end LazyConfig.Syntax
