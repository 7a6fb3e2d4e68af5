import LazyConfig.Number.Decimal
import LazyConfig.Number.Fault

/-!
# Complex numbers

Complex numbers with binary64 parts. A quotient is formed by scaling with the larger part of the
divisor. A power with a small integral exponent is formed by repeated squaring, any other in polar
form.
-/

namespace LazyConfig

structure Complex where
  re : Float
  im : Float
deriving DecidableEq, Inhabited

namespace Complex

open Arithmetic (Fault)

def one : Complex := ⟨1, 0⟩

def add (a b : Complex) : Complex := ⟨a.re + b.re, a.im + b.im⟩

def sub (a b : Complex) : Complex := ⟨a.re - b.re, a.im - b.im⟩

def neg (a : Complex) : Complex := ⟨-a.re, -a.im⟩

def mul (a b : Complex) : Complex :=
  ⟨a.re * b.re - a.im * b.im, a.re * b.im + a.im * b.re⟩

/-- The quotient, if the divisor is not zero. -/
def div? (a b : Complex) : Option Complex :=
  if b.im.abs ≤ b.re.abs then
    if b.re == 0 then none
    else
      let ratio := b.im / b.re
      let scale := b.re + b.im * ratio
      some ⟨(a.re + a.im * ratio) / scale, (a.im - a.re * ratio) / scale⟩
  else if b.re.abs ≤ b.im.abs then
    let ratio := b.re / b.im
    let scale := b.re * ratio + b.im
    some ⟨(a.re * ratio + a.im) / scale, (a.im * ratio - a.re) / scale⟩
  else
    let nan := Float.ofBits 0x7ff8000000000000
    some ⟨nan, nan⟩

/-- The product of the repeated squares of `square` that the binary digits of `n` select, on top of
`product`. The last argument bounds the number of digits. -/
def powerFrom (product square : Complex) (n : Nat) : Nat → Complex
  | 0 => product
  | digits + 1 =>
    if n = 0 then product
    else powerFrom (if n % 2 = 1 then product.mul square else product) (square.mul square) (n / 2)
      digits

def powerNat (a : Complex) (n : Nat) : Complex := powerFrom one a n (Nat.log2 n + 1)

/-- The largest magnitude of an exponent for repeated squaring. -/
def smallExponent : Nat := 100

/-- An exponent that is a small integer. -/
def smallExponent? (b : Complex) : Option Int :=
  if b.im == 0 then do
    let p ← Binary64.decode? b.re
    let (num, den) := p.fraction
    if num % den = 0 ∧ num.natAbs ≤ smallExponent * den then some (num / den) else none
  else none

/-- A power in polar form; `none` where the angle is infinite, or for a zero to a power that is
negative or not real. -/
def polarPower? (a b : Complex) : Option Complex :=
  if b.re == 0 && b.im == 0 then some one
  else if a.re == 0 && a.im == 0 then
    if b.im != 0 || b.re < 0 then none else some ⟨0, 0⟩
  else
    let length := Binary64.hypotenuse a.re a.im
    let angle := Float.atan2 a.im a.re
    let (length, phase) :=
      if b.im != 0 then
        (Float.pow length b.re / Float.exp (angle * b.im),
          angle * b.re + b.im * Float.log length)
      else (Float.pow length b.re, angle * b.re)
    if phase.isInf then none
    else some ⟨length * Float.cos phase, length * Float.sin phase⟩

def power (a b : Complex) : Except Fault Complex := do
  let result? := match smallExponent? b with
    | some n => if 0 < n then some (a.powerNat n.toNat) else one.div? (a.powerNat n.natAbs)
    | none => polarPower? a b
  match result? with
  | none => throw .zeroToComplex
  | some result =>
    if result.re.isInf || result.im.isInf then throw .complexOutOfRange
    return result

/-- The text of a complex number; a real part of positive zero is left out. -/
def text (z : Complex) : String :=
  let im := Decimal.partText z.im
  if z.re == 0 && !Binary64.isNegative z.re then im ++ "j"
  else
    let signed := if im.startsWith "-" then im else "+" ++ im
    "(" ++ Decimal.partText z.re ++ signed ++ "j)"

end Complex

end LazyConfig
