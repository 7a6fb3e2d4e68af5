import LazyConfig.Text.CharTable

/-!
# Character classes

The character classes that the configuration language and its texts depend on. A word starts with
a letter or an underscore and goes on with letters, numerals and underscores; white space is wider
than blanks and line ends; a decimal digit of any script has a value from 0 to 9.
-/

namespace LazyConfig.Text

/-- Whether one of the ascending ranges contains the code point. -/
def covers : List (Nat × Nat) → Nat → Bool
  | [], _ => false
  | (low, high) :: rest, n => if n < low then false else n ≤ high || covers rest n

def isLetter (c : Char) : Bool := covers letterRanges c.toNat

/-- The value of a decimal digit of any script. -/
def decimalValue? (c : Char) : Option Nat :=
  (decimalZeros.find? fun first => first ≤ c.toNat && c.toNat ≤ first + 9).map (c.toNat - ·)

def isDecimal (c : Char) : Bool := (decimalValue? c).isSome

/-- Letters, decimal digits and the other characters with a numeric value. -/
def isAlphanumeric (c : Char) : Bool :=
  isLetter c || isDecimal c || covers numeralRanges c.toNat

/-- The characters that go on a word. -/
def isWordChar (c : Char) : Bool := isAlphanumeric c || c == '_'

/-- The characters that start a word. -/
def isWordStart (c : Char) : Bool := isLetter c || c == '_'

def isBlank (c : Char) : Bool := covers blankRanges c.toNat

def isPrintable (c : Char) : Bool := covers printableRanges c.toNat

/-- The digits that number literals are written with. -/
def isDigit (c : Char) : Bool := '0' ≤ c && c ≤ '9'

/-- The value of a digit in radix 16, in either case. -/
def hexValue? (c : Char) : Option Nat :=
  if isDigit c then some (c.toNat - '0'.toNat)
  else if 'a' ≤ c && c ≤ 'f' then some (c.toNat - 'a'.toNat + 10)
  else if 'A' ≤ c && c ≤ 'F' then some (c.toNat - 'A'.toNat + 10)
  else none

def isHexDigit (c : Char) : Bool := (hexValue? c).isSome

/-- The number that the digits write in the given radix, most significant digit first. -/
def ofDigits (radix : Nat) (digits : List Nat) : Nat :=
  digits.foldl (fun total digit => total * radix + digit) 0

private theorem foldl_digits (radix total : Nat) (digits : List Nat) :
    digits.foldl (fun total digit => total * radix + digit) total =
      total * Nat.pow radix digits.length + ofDigits radix digits := by
  induction digits generalizing total with
  | nil => simp [ofDigits]
  | cons digit digits ih =>
    have shifted : Nat.pow radix (digits.length + 1) = Nat.pow radix digits.length * radix := rfl
    simp only [ofDigits, List.foldl_cons, List.length_cons, shifted]
    rw [ih, ih (0 * radix + digit), Nat.zero_mul, Nat.zero_add, Nat.add_mul, Nat.mul_assoc,
      Nat.mul_comm radix, Nat.add_assoc]

/-- Digits in front count for as many places as follow them. -/
theorem ofDigits_append (radix : Nat) (first second : List Nat) :
    ofDigits radix (first ++ second) =
      ofDigits radix first * Nat.pow radix second.length + ofDigits radix second := by
  rw [ofDigits, List.foldl_append, foldl_digits]
  rfl

/-- The number written by the hexadecimal digits among the characters. -/
def hexNumber (digits : List Char) : Nat := ofDigits 16 (digits.filterMap hexValue?)

theorem isWordChar_of_isWordStart {c : Char} (start : isWordStart c = true) :
    isWordChar c = true := by
  simp only [isWordStart, isWordChar, isAlphanumeric, Bool.or_eq_true] at *
  rcases start with letter | underscore
  · exact .inl (.inl (.inl letter))
  · exact .inr underscore

end LazyConfig.Text
