import LazyConfig.Number.Bitwise
import LazyConfig.Number.Complex

/-!
# Numbers

Integers of any size, binary64 numbers and complex numbers, with the operators on them. Where two
operands differ in kind, the lower one is lifted to the kind of the other; comparisons are exact all
the same. Operations on integers are exact, but for division, which is rounded once, and for large
powers, which go through binary64 numbers.
-/

namespace LazyConfig

open Arithmetic (Fault)

inductive Number where
  | int (n : Int)
  | float (x : Float)
  | complex (z : Complex)
deriving DecidableEq, Inhabited

namespace Number

/-- The text of a number, unless it is an integer with too many digits. -/
def text? : Number → Option String
  | int n => Decimal.intText? n
  | float x => some (Decimal.text x)
  | complex z => some z.text

def floatOfInt (n : Int) : Except Fault Float :=
  match Binary64.ofInt? n with
  | some x => .ok x
  | none => .error .intTooLarge

def toComplex : Number → Except Fault Complex
  | int n => do return ⟨← floatOfInt n, 0⟩
  | float x => .ok ⟨x, 0⟩
  | complex z => .ok z

/-- An operator given by its three kinds, applied in the higher kind of its operands. -/
def lift (onInt : Int → Int → Except Fault Number) (onFloat : Float → Float → Except Fault Number)
    (onComplex : Complex → Complex → Except Fault Number) : Number → Number → Except Fault Number
  | int a, int b => onInt a b
  | int a, float y => do onFloat (← floatOfInt a) y
  | float x, int b => do onFloat x (← floatOfInt b)
  | float x, float y => onFloat x y
  | a, b => do onComplex (← a.toComplex) (← b.toComplex)

def add : Number → Number → Except Fault Number :=
  lift (fun a b => .ok (int (a + b))) (fun x y => .ok (float (x + y)))
    (fun a b => .ok (complex (a.add b)))

def sub : Number → Number → Except Fault Number :=
  lift (fun a b => .ok (int (a - b))) (fun x y => .ok (float (x - y)))
    (fun a b => .ok (complex (a.sub b)))

def mul : Number → Number → Except Fault Number :=
  lift (fun a b => .ok (int (a * b))) (fun x y => .ok (float (x * y)))
    (fun a b => .ok (complex (a.mul b)))

/-- The quotient of two integers, rounded once. -/
def divInt (a b : Int) : Except Fault Number :=
  if b = 0 then .error .divisionByZero
  else
    let x := Binary64.nearest ((a < 0) != (b < 0)) a.natAbs b.natAbs
    if x.isInf then .error .quotientOutOfRange else .ok (float x)

def div : Number → Number → Except Fault Number :=
  lift divInt (fun x y => if y == 0 then .error .floatDivisionByZero else .ok (float (x / y)))
    (fun a b => match a.div? b with
      | some z => .ok (complex z)
      | none => .error .complexDivisionByZero)

def intDiv (a b : Int) : Except Fault Int :=
  if b = 0 then .error .intDivisionByZero else .ok (a.fdiv b)

def modulo (a b : Int) : Except Fault Int :=
  if b = 0 then .error .moduloByZero else .ok (a.fmod b)

/-- The largest distance of a shift to the left. -/
def shiftLimit : Nat := Nat.pow 2 32

def shiftLeft (a b : Int) : Except Fault Int :=
  if b < 0 then .error .negativeShift
  else if a = 0 then .ok 0
  else if shiftLimit ≤ b.toNat then .error .tooManyDigits
  else .ok (Bitwise.shiftLeft a b.toNat)

def shiftRight (a b : Int) : Except Fault Int :=
  if b < 0 then .error .negativeShift else .ok (Bitwise.shiftRight a b.toNat)

/-! ### Powers -/

/-- Whether a number has no fraction. -/
def isIntegral (x : Float) : Bool :=
  match Binary64.decode? x with
  | some p => p.magnitude.1 % p.magnitude.2 = 0
  | none => false

/-- Whether a number is an odd integer. -/
def isOdd (x : Float) : Bool :=
  isIntegral x && (Binary64.truncate? x).any (· % 2 ≠ 0)

/-- A power of a finite base, neither zero nor one, that is known not to be out of reach. -/
def finitePower (x y : Float) : Except Fault Number :=
  let magnitude := x.abs
  let result := if magnitude == 1 then 1 else Float.pow magnitude y
  if result.isInf then .error .floatOutOfRange
  else .ok (float (if x < 0 && isOdd y then -result else result))

/-- A power of binary64 numbers. A negative base to a power with a fraction is complex. -/
def floatPower (x y : Float) : Except Fault Number :=
  if y == 0 then .ok (float 1)
  else if x.isNaN then .ok (float x)
  else if y.isNaN then .ok (float (if x == 1 then 1 else y))
  else if y.isInf then
    let magnitude := x.abs
    if magnitude == 1 then .ok (float 1)
    else if (0 < y) == (1 < magnitude) then .ok (float y.abs)
    else .ok (float 0)
  else if x.isInf then
    if 0 < y then .ok (float (if isOdd y then x else x.abs))
    else .ok (float (if isOdd y then Binary64.ofMagnitude (Binary64.isNegative x) 0 else 0))
  else if x == 0 then
    if y < 0 then .error .zeroToNegative
    else .ok (float (if isOdd y then x else 0))
  else if x < 0 && !isIntegral y then do
    return complex (← Complex.power ⟨x, 0⟩ ⟨y, 0⟩)
  else finitePower x y

/-- Powers of at most so many binary digits are exact. -/
def exactPowerBits : Nat := 4096

/-- The power of an integer through binary64 numbers, with its fraction cut off. A base of at least
two is out of range where its leading binary digit alone would be. -/
def roundedPower (a b : Int) : Except Fault Int := do
  let x ← floatOfInt a
  let y ← floatOfInt b
  if 1024 ≤ (Bitwise.length a - 1 : Nat) * b then throw .floatOutOfRange
  match ← floatPower x y with
  | int n => return n
  | float z => return (Binary64.truncate? z).getD 0
  | complex z => return (Binary64.truncate? z.re).getD 0

/-- A power of an integer. The powers of zero are known, however large the exponent is. -/
def exactPower (a : Int) (b : Nat) : Int := if a = 0 ∧ b ≠ 0 then 0 else Int.pow a b

theorem exactPower_eq_pow (a : Int) (b : Nat) : exactPower a b = Int.pow a b := by
  by_cases zero : a = 0 ∧ b ≠ 0
  · rw [exactPower, if_pos zero, zero.1]
    exact (Int.zero_pow zero.2).symm
  · rw [exactPower, if_neg zero]

def intPower (a b : Int) : Except Fault Int :=
  if 0 ≤ b ∧ Bitwise.length a * b ≤ exactPowerBits then .ok (exactPower a b.toNat)
  else roundedPower a b

def power : Number → Number → Except Fault Number :=
  lift (fun a b => do return int (← intPower a b)) floatPower
    (fun a b => do return complex (← a.power b))

/-! ### Signs -/

def neg : Number → Number
  | int n => int (-n)
  | float x => float (-x)
  | complex z => complex z.neg

/-! ### Comparison -/

/-- Whether two numbers are equal in value, whatever their kinds. -/
def equal : Number → Number → Bool
  | int a, int b => a = b
  | int a, float y => Binary64.compareInt a y = some .eq
  | float x, int b => Binary64.compareInt b x = some .eq
  | float x, float y => x == y
  | int a, complex w => w.im == 0 && Binary64.compareInt a w.re = some .eq
  | complex z, int b => z.im == 0 && Binary64.compareInt b z.re = some .eq
  | float x, complex w => w.im == 0 && x == w.re
  | complex z, float y => z.im == 0 && z.re == y
  | complex z, complex w => z.re == w.re && z.im == w.im

/-- How two real numbers compare; `some none` if one of them is NaN, `none` for complex numbers. -/
def compare? : Number → Number → Option (Option Ordering)
  | int a, int b => some (some (compare a b))
  | int a, float y => some (Binary64.compareInt a y)
  | float x, int b => some ((Binary64.compareInt b x).map Ordering.swap)
  | float x, float y =>
    some (if x < y then some .lt else if y < x then some .gt else if x == y then some .eq else none)
  | _, _ => none

end Number

end LazyConfig
