import LazyConfig.Token.Error
import LazyConfig.Number.Decimal

/-!
# Number literals

A number literal is an integer in radix 2, 8, 10 or 16, a decimal with a fraction or an exponent,
or a decimal with the imaginary mark `j`. Underscores may separate digits. The literal extends as
far as its characters allow; what follows it directly must be neither a point nor alphanumeric.
-/

namespace LazyConfig.Token.Numeral

open Text (isDigit isHexDigit isAlphanumeric hexNumber ofDigits)

/-- The radix that the letter after a leading zero marks. -/
def radix? : Char → Option Nat
  | 'x' | 'X' => some 16
  | 'o' | 'O' => some 8
  | 'b' | 'B' => some 2
  | _ => none

/-- Whether the character is a digit in the radix of a marked literal, or a decimal digit. -/
def isDigitIn (radix : Option Nat) (c : Char) : Bool :=
  match radix with
  | none => isDigit c
  | some 16 => isHexDigit c
  | some radix => isDigit c && c.toNat < '0'.toNat + radix

/-- A literal that has been read in part, its last character first. -/
structure Scan where
  text : List Char
  radix : Option Nat := none
  inExponent : Bool := false
  afterDigit : Bool

/-- What the next character does to a literal. -/
inductive Step where
  | extend (scan : Scan)
  | finish
  | misplacedUnderscore

namespace Scan

def isExponentMark (c : Char) : Bool := c = 'e' || c = 'E'

/-- The literal with one more character that is no digit of it. -/
def push (s : Scan) (c : Char) : Scan := { s with text := c :: s.text, afterDigit := false }

/-- Whether the character goes on a decimal literal as its point, its exponent mark or the sign of
its exponent. -/
def allows (s : Scan) (c : Char) : Bool :=
  s.radix.isNone &&
    ((c = '.' && !s.inExponent && !s.text.contains '.') ||
     ((c = '+' || c = '-') && s.inExponent && s.text.head?.any isExponentMark) ||
     (isExponentMark c && !s.inExponent && s.text.head? ≠ some '_'))

def step (s : Scan) (c : Char) : Step :=
  if c = '_' then
    if s.afterDigit then .extend (s.push c) else .misplacedUnderscore
  else if isDigitIn s.radix c then .extend { s.push c with afterDigit := true }
  -- a letter marks the radix only if nothing but a zero stands before it
  else if s.text = ['0'] ∧ (radix? c).isSome then .extend { s.push c with radix := radix? c }
  else if s.allows c then
    .extend { s.push c with inExponent := s.inExponent || isExponentMark c }
  else .finish

/-- The longest literal that the text goes on, and what follows it. -/
def run (s : Scan) : List Char → Except Misread (Scan × List Char)
  | [] => .ok (s, [])
  | c :: rest =>
    match s.step c with
    | .extend longer => longer.run rest
    | .finish => .ok (s, c :: rest)
    | .misplacedUnderscore =>
      .error ⟨.underscore (String.ofList (c :: s.text).reverse), s.text.length, s.text.length + 1,
        false⟩

end Scan

/-- The number written by digits of any radix up to 16. -/
def valueIn (radix : Nat) (digits : List Char) : Nat :=
  ofDigits radix (digits.filterMap Text.hexValue?)

/-- The integer that a literal without underscores denotes. A leading zero makes it octal. -/
def integer? (radix : Option Nat) (text : List Char) : Option Int :=
  match radix, text with
  -- the digits stand behind the zero and the letter
  | some radix, _ =>
    let digits := text.drop 2
    if digits = [] then none else some (valueIn radix digits)
  | none, '0' :: rest =>
    if rest.all (isDigitIn (some 8)) then some (valueIn 8 rest) else none
  | none, '-' :: digits =>
    if digits.length ≤ Decimal.digitLimit then some (-(Decimal.number digits : Int)) else none
  | none, digits =>
    if digits.length ≤ Decimal.digitLimit then some (Decimal.number digits) else none

/-- The token that a finished literal makes, if it denotes a value. -/
def Scan.value? (s : Scan) (imaginary : Bool) : Option (Kind × Literal) :=
  let text := s.text.reverse.filter (· ≠ '_')
  if imaginary then (Decimal.read? text).map (Kind.complex, .imaginary ·)
  else if s.inExponent || s.text.contains '.' then
    (Decimal.read? text).map (Kind.float, .float ·)
  else (integer? s.radix text).map (Kind.integer, .int ·)

/-- The token of a literal with the mark that ends it, if any. A literal without one ends where the
next character does not go on with it. -/
def Scan.close (s : Scan) (mark : List Char) : Except Misread Lexeme :=
  let length := s.text.length + mark.length
  match s.value? (mark ≠ []) with
  | some (kind, value) => .ok ⟨kind, length, value, mark = []⟩
  | none =>
    let shown := s.text.reverse.filter (· ≠ '_') ++ mark
    .error ⟨.number (String.ofList shown), 0, length, mark = []⟩

/-- Ends a literal before the given rest, of which only an imaginary mark still belongs to it. -/
def Scan.finish (s : Scan) (rest : List Char) : Except Misread Lexeme :=
  -- the character behind the underscore has been read to find the end of the literal
  if s.text.head? = some '_' then
    .error ⟨.trailingUnderscore (String.ofList s.text.reverse), s.text.length - 1,
      s.text.length + (rest.take 1).length, rest = []⟩
  else match rest with
    | [] => s.close []
    | c :: _ =>
      if s.radix = none ∧ (c = 'j' ∨ c = 'J') then s.close [c]
      else if c = '.' ∨ isAlphanumeric c then
        .error ⟨.number c.toString, s.text.length, s.text.length + 1, false⟩
      else s.close []

/-- The number literal that starts with the characters of `opening`, the last of them first. -/
def read (opening : List Char) (rest : List Char) : Except Misread Lexeme := do
  let scan : Scan := { text := opening, afterDigit := opening.head?.any isDigit }
  let (scan, rest) ← scan.run rest
  scan.finish rest

end LazyConfig.Token.Numeral
