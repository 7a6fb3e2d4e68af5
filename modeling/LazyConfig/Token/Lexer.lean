import LazyConfig.Token.Numeral
import LazyConfig.Token.Quotation

/-!
# Reading tokens

`next` reads one token from a cursor and returns the cursor behind it. Blanks and line ends that
follow a backslash are skipped. A comment counts as the line end that closes it. A cursor can be
read on after an error, and at the end of the text every reading gives an end token.

A text can break off before bytes that stand for no character. That is noticed by the first reading
that asks for a character there, if only to see where its token ends.
-/

namespace LazyConfig.Token

open Text (isWordChar isWordStart isBlank isDigit)

/-- A place in a text: the characters from there on, the location of the first of them, and what is
wrong behind the last if the text breaks off there. -/
structure Cursor where
  rest : List Char
  location : Location := {}
  source : Nat := 0
  fault : Option Text.Malformed := none
deriving DecidableEq, Repr

namespace Cursor

def ofText (text : Text.Decoded) (source : Nat := 0) : Cursor :=
  { rest := text.characters, source, fault := text.fault }

def ofString (text : String) (source : Nat := 0) : Cursor := ofText ⟨text.toList, none⟩ source

/-- The cursor behind the next characters. -/
def skip (c : Cursor) (count : Nat) : Cursor :=
  { c with rest := c.rest.drop count, location := c.location.advance (c.rest.take count) }

/-- The span of the next characters. -/
def spanOf (c : Cursor) (count : Nat) : Span :=
  ⟨c.source, c.location, c.location.lastOf (c.rest.take count)⟩

@[simp] theorem fault_skip (c : Cursor) (count : Nat) : (c.skip count).fault = c.fault := rfl

@[simp] theorem skip_zero (c : Cursor) : c.skip 0 = c := by simp [skip]

theorem skip_skip (c : Cursor) (first second : Nat) :
    (c.skip first).skip second = c.skip (first + second) := by
  simp [skip, List.take_add, Location.advance_append]

end Cursor

/-- The words with a meaning of their own, and their kinds and values. -/
def keywords : List (String × Kind × Literal) :=
  [("true", .true, .bool true), ("false", .false, .bool false), ("null", .none, .null),
   ("is", .is, .text "is"), ("in", .in, .text "in"), ("not", .not, .text "not"),
   ("and", .and, .text "and"), ("or", .or, .text "or")]

def word (text : List Char) : Lexeme :=
  let spelling := String.ofList text
  match keywords.lookup spelling with
  | some (kind, value) => ⟨kind, text.length, value, true⟩
  | none => ⟨.word, text.length, .text spelling, true⟩

/-- The marks of one character. -/
def mark? : Char → Option Kind
  | ':' => some .colon
  | '-' => some .minus
  | '+' => some .plus
  | '*' => some .star
  | '/' => some .slash
  | '%' => some .modulo
  | ',' => some .comma
  | '{' => some .leftCurly
  | '}' => some .rightCurly
  | '[' => some .leftBracket
  | ']' => some .rightBracket
  | '(' => some .leftParenthesis
  | ')' => some .rightParenthesis
  | '@' => some .at
  | '$' => some .dollar
  | '<' => some .lessThan
  | '>' => some .greaterThan
  | '!' => some .not
  | '~' => some .bitwiseComplement
  | '&' => some .bitwiseAnd
  | '|' => some .bitwiseOr
  | '^' => some .bitwiseXor
  | '.' => some .dot
  | '=' => some .assign
  | _ => none

/-- The marks of two characters. -/
def doubleMark? : Char → Char → Option Kind
  | '=', '=' => some .equal
  | '<', '=' => some .lessThanOrEqual
  | '<', '>' => some .altUnequal
  | '<', '<' => some .leftShift
  | '>', '=' => some .greaterThanOrEqual
  | '>', '>' => some .rightShift
  | '!', '=' => some .unequal
  | '/', '/' => some .slashSlash
  | '*', '*' => some .power
  | '&', '&' => some .and
  | '|', '|' => some .or
  | _, _ => none

/-- Whether a second character can make another mark or a number of a mark. -/
def isOpenMark (c : Char) : Bool := ['=', '<', '>', '!', '/', '*', '&', '|', '.', '-'].contains c

/-- Marks that no second character can go on with start no mark of two characters. -/
theorem doubleMark?_eq_none {first : Char} (second : Char) (closed : isOpenMark first = false) :
    doubleMark? first second = none := by
  unfold doubleMark?
  split <;> first | rfl | exact absurd closed (by decide)

/-- Whether a number literal starts with the two characters, the first being a point or a minus. -/
def startsNumber (first second : Char) : Bool :=
  ((first = '.' || first = '-') && isDigit second) || (first = '-' && second = '.')

/-- The token at the head of a text that starts with neither a blank, a line end nor a comment. -/
def lexeme (c : Char) (rest : List Char) : Except Misread Lexeme :=
  if isWordStart c then .ok (word (c :: rest.takeWhile isWordChar))
  else if c = '`' then Quotation.backtick rest
  else if c = '\'' ∨ c = '"' then Quotation.string c rest
  else if isDigit c then Numeral.read [c] rest
  else match mark? c with
    | none => .error ⟨.character c, 0, 1, false⟩
    | some kind =>
      match rest with
      | [] => .ok ⟨kind, 1, .absent, isOpenMark c⟩
      | second :: tail =>
        -- a number that starts with its point or its sign comes before the marks
        if startsNumber c second then Numeral.read [second, c] tail
        else match doubleMark? c second with
          | some double => .ok ⟨double, 2, .absent, false⟩
          | none => .ok ⟨kind, 1, .absent, isOpenMark c⟩

/-- What a reading gives: a token or an error, and the cursor behind the characters that were read.
It `peeks` if the character at the cursor has been asked for, too. -/
structure Reading where
  result : Except Error Token
  behind : Cursor
  peeks : Bool

/-- The token of a comment: carriage returns are no part of its text. -/
def comment (here : Cursor) (rest : List Char) : Reading :=
  let body := '#' :: rest.takeWhile (· ≠ '\n')
  -- the span ends with the last character that is shown
  let shown := body.filter (· ≠ '\r')
  let visible := (body.reverse.dropWhile (· = '\r')).length
  ⟨.ok ⟨.newline, String.ofList shown, .absent, here.spanOf visible⟩,
    here.skip (body.length + 1), !rest.contains '\n'⟩

/-- The token that ends a line, written with the given number of characters. -/
def lineEnd (here : Cursor) (length : Nat) (peeks : Bool) : Reading :=
  ⟨.ok ⟨.newline, "\n", .absent, here.spanOf 1⟩, here.skip length, peeks⟩

def endOfText (here : Cursor) : Reading := ⟨.ok ⟨.eof, "", .absent, here.spanOf 0⟩, here, true⟩

/-- The token that starts with the next character. -/
def solid (here : Cursor) (c : Char) (rest : List Char) : Reading :=
  match lexeme c rest with
  | .ok found =>
    let text := (c :: rest).take found.length
    ⟨.ok ⟨found.kind, String.ofList text, found.value, here.spanOf found.length⟩,
      here.skip found.length, found.peeks⟩
  | .error misread =>
    ⟨.error ⟨misread.fault, (here.skip misread.offset).location⟩, here.skip misread.length,
      misread.peeks⟩

/-- The complaint about a backslash that no line end follows, noticed at the character after the
first `offset` ones. -/
def strayBackslash (here : Cursor) (offset : Nat) : Reading :=
  ⟨.error ⟨.character '\\', (here.skip offset).location⟩, here.skip (offset + 1),
    here.rest.length ≤ offset⟩

/-- Reads a token from a text whose first character stands at the given location of the source that
the cursor belongs to. -/
def nextFrom (cursor : Cursor) (location : Location) : List Char → Reading
  | [] => endOfText { cursor with rest := [], location }
  | c :: rest =>
    let here : Cursor := { cursor with rest := c :: rest, location }
    if c = '#' then comment here rest
    else if c = '\n' then lineEnd here 1 false
    else if c = '\r' then
      if rest.head? = some '\n' then lineEnd here 2 false else lineEnd here 1 true
    else if c = '\\' then
      match rest with
      | '\n' :: tail => nextFrom cursor (location.advance ['\\', '\n']) tail
      | '\r' :: '\n' :: tail => nextFrom cursor (location.advance ['\\', '\r', '\n']) tail
      -- a carriage return alone does not go on with the line
      | '\r' :: _ => strayBackslash here 2
      | _ => strayBackslash here 1
    else if isBlank c then nextFrom cursor (location.after c) rest
    else solid here c rest

/-- Reads a token, and leaves the cursor behind it or behind the characters that were read when a
fault was noticed. -/
def next (here : Cursor) : Except Error Token × Cursor :=
  let reading := nextFrom here here.location here.rest
  let behind := reading.behind
  match (if reading.peeks ∧ behind.rest = [] then here.fault else none) with
  | some bytes => (.error ⟨.undecodable bytes, behind.location⟩, behind)
  | none => (reading.result, behind)

/-- In a text that does not break off, what is read next does not depend on what was asked for. -/
theorem next_of_fault_eq_none {here : Cursor} (whole : here.fault = none) :
    next here =
      let reading := nextFrom here here.location here.rest
      (reading.result, reading.behind) := by
  simp [next, whole]

/-- All tokens from a cursor on up to the end token, reading on after errors if `resume`. The first
argument bounds the number of readings. -/
def readAll (resume : Bool) : Nat → Cursor → List (Except Error Token) × Cursor
  | 0, here => ([], here)
  | bound + 1, here =>
    match next here with
    | (.ok token, behind) =>
      if token.kind = .eof then ([.ok token], behind)
      else (readAll resume bound behind).map (.ok token :: ·) id
    | (.error e, behind) =>
      if resume then (readAll resume bound behind).map (.error e :: ·) id
      else ([.error e], behind)

/-- All tokens of what is left to read: every reading but the last takes a character. -/
def Cursor.tokens (here : Cursor) (resume : Bool) : List (Except Error Token) × Cursor :=
  readAll resume (here.rest.length + 1) here

end LazyConfig.Token
