import LazyConfig.Token.Lexer

/-!
# Token streams

The tokens of a text as a grammar reads them: the token at hand, the tokens after it, and how the
text ends. A text ends in its end token, which can be read again and again, or in the first lexical
error. Reading past the token at hand fails where the error stands, and not before.
-/

namespace LazyConfig.Token

structure Stream where
  next : Token
  rest : List Token
  ending : Except Error Token

namespace Stream

/-- The stream of a sequence of readings, of which the last is an error or an end token and no
other is. -/
def ofReadings : List (Except Error Token) → Except Error Stream
  | [] => .ok ⟨{ kind := .eof, text := "" }, [], .ok { kind := .eof, text := "" }⟩
  | .error e :: _ => .error e
  | .ok first :: readings =>
    .ok ⟨first, readings.dropLast.filterMap Except.toOption, readings.getLast?.getD (.ok first)⟩

/-- The tokens from a cursor on; an error if not even one token can be read. -/
def ofCursor (cursor : Cursor) : Except Error Stream := ofReadings (cursor.tokens false).1

def ofText (text : Text.Decoded) (source : Nat := 0) : Except Error Stream :=
  ofCursor (Cursor.ofText text source)

def ofString (text : String) (source : Nat := 0) : Except Error Stream :=
  ofCursor (Cursor.ofString text source)

/-- Goes on to the next token. -/
def advance (s : Stream) : Except Error Stream :=
  match s.rest with
  | token :: rest => .ok { s with next := token, rest }
  | [] => s.ending.map fun token => { s with next := token }

/-- The tokens at hand and after it. -/
def toList (s : Stream) : List Token := s.next :: s.rest

end Stream

end LazyConfig.Token
