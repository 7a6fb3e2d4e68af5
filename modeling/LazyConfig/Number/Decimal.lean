import LazyConfig.Number.Binary64
import LazyConfig.Text.CharClass

/-!
# Decimal numerals

Reading and writing numbers in radix ten. A numeral with a fraction or an exponent denotes the
binary64 number nearest to its value. A binary64 number is written with the fewest digits that read
back as the same number, and with those nearest to it among them. An integer is written in full, up
to a limit on its digits.
-/

namespace LazyConfig.Decimal

open Text (ofDigits isDigit)

/-- How many decimal digits an integer may have where it is read from or written as text. -/
def digitLimit : Nat := 4300

/-- The decimal digits of an integer, unless it has too many. -/
def intText? (n : Int) : Option String :=
  if n.natAbs < Nat.pow 10 digitLimit then some (toString n) else none

def digitValues (digits : List Char) : List Nat := digits.map fun c => c.toNat - '0'.toNat

/-- The natural number written by decimal digits. -/
def number (digits : List Char) : Nat := ofDigits 10 (digitValues digits)

/-- How many decimal digits a natural number has. -/
def length (n : Nat) : Nat := (Nat.toDigits 10 n).length

/-! ### Reading -/

/-- The binary64 number nearest to `significand * 10 ^ exponent`. Far outside the range of the
binary64 numbers the result is known without the power of ten. -/
def nearest (negative : Bool) (significand : Nat) (exponent : Int) : Float :=
  let magnitude : Int := length significand + exponent
  if significand = 0 ∨ magnitude < -400 then Binary64.ofMagnitude negative 0
  else if 400 < magnitude then Binary64.infinity negative
  else match exponent with
    | .ofNat places => Binary64.nearest negative (significand * Nat.pow 10 places) 1
    | .negSucc places => Binary64.nearest negative significand (Nat.pow 10 (places + 1))

/-- The exponent after the mark `e`: a sign, if any, and at least one digit. -/
def exponent? (text : List Char) : Option Int :=
  let (negative, digits) := match text with
    | '-' :: rest => (true, rest)
    | '+' :: rest => (false, rest)
    | rest => (false, rest)
  if digits = [] ∨ ¬ digits.all isDigit then none
  else some (if negative then -(number digits : Int) else number digits)

/-- The number that a numeral denotes: a minus sign, if any, digits with at most one point among
them, and an exponent, if any. At least one digit stands before the exponent. -/
def read? (text : List Char) : Option Float := do
  let (negative, unsigned) := match text with
    | '-' :: rest => (true, rest)
    | rest => (false, rest)
  let whole := unsigned.takeWhile isDigit
  let afterWhole := unsigned.dropWhile isDigit
  let (places, tail) := match afterWhole with
    | '.' :: rest => (rest.takeWhile isDigit, rest.dropWhile isDigit)
    | rest => ([], rest)
  if whole ++ places = [] then failure
  let exponent ← match tail with
    | [] => some 0
    | mark :: rest => if mark = 'e' ∨ mark = 'E' then exponent? rest else none
  return nearest negative (number (whole ++ places)) (exponent - places.length)

/-! ### Writing -/

/-- The interval of numbers that round to a positive binary64 number, from `low / den` to
`high / den`, the number itself being `value / den`. The ends belong to it if the significand is
even. -/
structure Rounding where
  low : Nat
  value : Nat
  high : Nat
  den : Nat
  closed : Bool

/-- Below a power of two the binary64 numbers are twice as close as above it. -/
def rounding (p : Binary64.Parts) : Rounding :=
  let (value, den) := p.magnitude
  let unit := (Binary64.Parts.mk false 1 p.exponent).magnitude.1
  let below := if p.significand = Nat.pow 2 52 ∧ p.exponent ≠ -1074 then unit else 2 * unit
  { low := 4 * value - below, value := 4 * value, high := 4 * value + 2 * unit, den := 4 * den,
    closed := p.significand % 2 = 0 }

def Rounding.contains (r : Rounding) (num den : Nat) : Bool :=
  if r.closed then r.low * den ≤ num * r.den && num * r.den ≤ r.high * den
  else r.low * den < num * r.den && num * r.den < r.high * den

/-- The fraction `n * 10 ^ exponent`. -/
def tenfold (n : Nat) (exponent : Int) : Nat × Nat :=
  match exponent with
  | .ofNat places => (n * Nat.pow 10 places, 1)
  | .negSucc places => (n, Nat.pow 10 (places + 1))

/-- The multiple of `10 ^ exponent` that is nearest to the number among those that round to it; of
two equally near ones the even one. -/
def Rounding.candidate? (r : Rounding) (exponent : Int) : Option Nat :=
  let (unitNum, unitDen) := tenfold 1 exponent
  let num := r.value * unitDen
  let den := r.den * unitNum
  -- if any point of this grid rounds to the number, so does one of its two neighbours on it
  let floor := num / den
  let inside := fun n => r.contains (n * unitNum) unitDen
  match inside floor, inside (floor + 1) with
  | true, true => some (Binary64.roundDiv num den)
  | true, false => some floor
  | false, true => some (floor + 1)
  | false, false => none

/-- The candidate with the fewest digits, from `count` digits on. -/
def Rounding.fewest (r : Rounding) (magnitude : Int) (count : Nat) : Nat → Nat × Int
  | 0 => (r.value / r.den, 0)
  | more + 1 =>
    match r.candidate? (magnitude - count) with
    | some digits => (digits, magnitude - count)
    | none => r.fewest magnitude (count + 1) more

/-- The exponent `k` with `10 ^ (k - 1) ≤ num / den < 10 ^ k`, for binary64 numbers. -/
def magnitude (num den : Nat) : Int := (length (num * Nat.pow 10 400 / den) : Int) - 400

/-- The shortest digits that read back as the given positive number, without zeros at their end,
and the place of the decimal point relative to the first of them. -/
def shortest (p : Binary64.Parts) : List Char × Int :=
  let (num, den) := p.magnitude
  let (n, exponent) := (rounding p).fewest (magnitude num den) 1 17
  let digits := Nat.toDigits 10 n
  ((digits.reverse.dropWhile (· = '0')).reverse, digits.length + exponent)

/-- How a floating point number is laid out as text. -/
structure Layout where
  /-- Whether an integral number shows `.0`. -/
  pointZero : Bool

/-- Digits with a decimal point after the first `point` of them. Numbers from 1e-4 up to 1e16 are
written in full, others with an exponent of at least two digits. -/
def Layout.place (layout : Layout) (digits : List Char) (point : Int) : String :=
  if -4 < point ∧ point ≤ 16 then
    let whole := if 0 < point then digits.take point.toNat else ['0']
    let zeros := List.replicate (point.toNat - digits.length) '0'
    let places := List.replicate (-point).toNat '0' ++ digits.drop point.toNat
    let tail := if places = [] then (if layout.pointZero then ".0" else "")
      else "." ++ String.ofList places
    String.ofList (whole ++ zeros) ++ tail
  else
    let places := digits.drop 1
    let mantissa := String.ofList (digits.take 1) ++
      (if places = [] then "" else "." ++ String.ofList places)
    let exponent := point - 1
    let magnitude := toString exponent.natAbs
    mantissa ++ "e" ++ (if exponent < 0 then "-" else "+") ++
      (if magnitude.length < 2 then "0" ++ magnitude else magnitude)

def Layout.write (layout : Layout) (x : Float) : String :=
  match Binary64.decode? x with
  | none => if x.isNaN then "nan" else if Binary64.isNegative x then "-inf" else "inf"
  | some p =>
    let sign := if p.negative then "-" else ""
    if p.significand = 0 then sign ++ (if layout.pointZero then "0.0" else "0")
    else
      let (digits, point) := shortest p
      sign ++ layout.place digits point

/-- The text of a floating point number: an integral one ends in `.0`. -/
def text (x : Float) : String := Layout.write ⟨true⟩ x

/-- The text of a part of a complex number: an integral one has no point. -/
def partText (x : Float) : String := Layout.write ⟨false⟩ x

end LazyConfig.Decimal
