/-!
# Binary64 numbers as exact fractions

A finite binary64 number is a signed integer times a power of two. `decode?` reads that off the
bits, and `nearest` goes the other way: it rounds any non-negative fraction to the closest binary64
number, ties to the even significand, with infinity beyond the largest one. Together they make
every conversion between integers, decimals and floating point numbers exact integer arithmetic.
-/

namespace LazyConfig.Binary64

/-- The number `significand * 2 ^ exponent`, with its sign. -/
structure Parts where
  negative : Bool
  significand : Nat
  exponent : Int
deriving DecidableEq, Repr

/-- The bits of positive infinity, one above those of the largest finite number. -/
def infinityBits : Nat := 2047 * Nat.pow 2 52

def signBit : Nat := Nat.pow 2 63

def isNegative (x : Float) : Bool := signBit ≤ x.toBits.toNat

/-- The parts of a finite number; infinities and NaN have none. -/
def decode? (x : Float) : Option Parts :=
  let bits := x.toBits.toNat % signBit
  let field : Nat := bits / Nat.pow 2 52
  let fraction := bits % Nat.pow 2 52
  if field = 2047 then none
  else if field = 0 then some ⟨isNegative x, fraction, -1074⟩
  else some ⟨isNegative x, fraction + Nat.pow 2 52, (field : Int) - 1075⟩

def ofMagnitude (negative : Bool) (bits : Nat) : Float :=
  Float.ofBits (UInt64.ofNat (if negative then bits + signBit else bits))

def infinity (negative : Bool) : Float := ofMagnitude negative infinityBits

/-- The quotient rounded to the nearest integer, a half to the even neighbour. -/
def roundDiv (num den : Nat) : Nat :=
  let quotient := num / den
  let twice := 2 * (num % den)
  if twice < den then quotient
  else if den < twice then quotient + 1
  else quotient + quotient % 2

/-- The rounded quotient is off by at most a half. -/
theorem roundDiv_near {num den : Nat} (positive : 0 < den) :
    2 * num ≤ (2 * roundDiv num den + 1) * den ∧ 2 * roundDiv num den * den ≤ 2 * num + den := by
  have whole : den * (num / den) + num % den = num := Nat.div_add_mod num den
  have rest : num % den < den := Nat.mod_lt num positive
  have parity : num / den % 2 = 0 ∨ num / den % 2 = 1 := Nat.mod_two_eq_zero_or_one _
  simp only [roundDiv]
  split
  · grind
  · split
    · grind
    · rcases parity with even | odd
      · grind
      · grind

/-- A half goes to the even neighbour. -/
theorem even_roundDiv_of_half {num den : Nat} (half : 2 * (num % den) = den) :
    roundDiv num den % 2 = 0 := by
  simp only [roundDiv, half, Nat.lt_irrefl, if_false]
  omega

/-- The fraction `num / den` over `2 ^ exponent`, as a fraction of integers. -/
def scaled (num den : Nat) (exponent : Int) : Nat × Nat :=
  match exponent with
  | .ofNat shift => (num, den * Nat.pow 2 shift)
  | .negSucc shift => (num * Nat.pow 2 (shift + 1), den)

/-- The exponent of the last place of the binary64 numbers near a positive fraction. -/
def lastPlace (num den : Nat) : Int :=
  -- the quotient over the guess has 53 or 54 binary digits
  let guess : Int := (Nat.log2 num : Int) - Nat.log2 den - 53
  let (n, d) := scaled num den guess
  max (if n / d < Nat.pow 2 53 then guess else guess + 1) (-1074)

/-- The bits of the binary64 number nearest to a positive fraction. Counting the significand up
into the exponent field makes a carry and the subnormal numbers come out right. -/
def nearestBits (num den : Nat) : Nat :=
  let exponent := lastPlace num den
  let (n, d) := scaled num den exponent
  min infinityBits ((exponent + 1074).toNat * Nat.pow 2 52 + roundDiv n d)

/-- The binary64 number nearest to the fraction with the given sign. -/
def nearest (negative : Bool) (num den : Nat) : Float :=
  ofMagnitude negative (if num = 0 then 0 else nearestBits num den)

/-- The number nearest to an integer, if it is finite. -/
def ofInt? (n : Int) : Option Float :=
  let x := nearest (n < 0) n.natAbs 1
  if x.isFinite then some x else none

/-- The magnitude of a finite number as a fraction of integers. -/
def Parts.magnitude (p : Parts) : Nat × Nat :=
  match p.exponent with
  | .ofNat shift => (p.significand * Nat.pow 2 shift, 1)
  | .negSucc shift => (p.significand, Nat.pow 2 (shift + 1))

/-- A finite number as a fraction of integers, the second positive. -/
def Parts.fraction (p : Parts) : Int × Nat :=
  let (num, den) := p.magnitude
  (if p.negative then -(num : Int) else num, den)

/-- The part of a finite number before its binary point. -/
def truncate? (x : Float) : Option Int :=
  (decode? x).map fun p => p.fraction.1.tdiv p.fraction.2

/-- How an integer compares with a floating point number, exactly; `none` for NaN. -/
def compareInt (n : Int) (x : Float) : Option Ordering :=
  if x.isNaN then none
  else match decode? x with
    | none => some (if isNegative x then .gt else .lt)
    | some p => some (compare (n * p.fraction.2) p.fraction.1)

/-! ### The hypotenuse -/

/-- The hypotenuse over two legs, the longer one first, whose squares are in range. What the rounded
root exceeds the true length by is estimated from the legs and taken off again. -/
def correctedRoot (long short : Float) : Float :=
  let root := Float.sqrt (long * long + short * short)
  let excess :=
    if root ≤ 2 * short then
      let more := root - short
      long * (2 * more - long) + (more - 2 * (long - short)) * more
    else
      let more := root - long
      2 * more * (long - 2 * short) + ((4 * more - short) * short + more * more)
  root - excess / (2 * root)

/-- The factor that brings legs into the range of squares: 2 to the power -600. -/
def legScale : Float := Float.ofBits 0x1a70000000000000

/-- Legs longer than this, 2 to the power 511, have squares out of range. -/
def longLeg : Float := Float.ofBits 0x5fe0000000000000

/-- Legs shorter than this, 2 to the power -459, have squares that lose places. -/
def shortLeg : Float := Float.ofBits 0x2340000000000000

/-- A leg that is smaller than the other one by this factor, 2 to the power -54, adds nothing. -/
def negligible : Float := Float.ofBits 0x3c90000000000000

/-- The length of the hypotenuse over two legs. -/
def hypotenuse (x y : Float) : Float :=
  if x.isInf || y.isInf then infinity false
  else if x.isNaN || y.isNaN then x + y
  else
    let long := if x.abs < y.abs then y.abs else x.abs
    let short := if x.abs < y.abs then x.abs else y.abs
    if longLeg < long then
      if short ≤ long * negligible then long + short
      else correctedRoot (long * legScale) (short * legScale) / legScale
    else if short < shortLeg then
      if short / negligible ≤ long then long + short
      else correctedRoot (long / legScale) (short / legScale) * legScale
    else if short ≤ long * negligible then long + short
    else correctedRoot long short

end LazyConfig.Binary64
