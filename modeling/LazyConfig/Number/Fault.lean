/-!
# Arithmetic faults

Why an operation on numbers has no result.
-/

namespace LazyConfig.Arithmetic

inductive Fault where
  | divisionByZero
  | intDivisionByZero
  | moduloByZero
  | floatDivisionByZero
  | complexDivisionByZero
  /-- A real zero to a negative power. -/
  | zeroToNegative
  /-- A complex zero to a power that is negative or not real. -/
  | zeroToComplex
  | floatOutOfRange
  | complexOutOfRange
  | quotientOutOfRange
  /-- An integer beyond the floating point numbers. -/
  | intTooLarge
  | negativeShift
  | tooManyDigits
deriving DecidableEq, Repr

def Fault.message : Fault → String
  | .divisionByZero => "division by zero"
  | .intDivisionByZero => "integer division or modulo by zero"
  | .moduloByZero => "integer modulo by zero"
  | .floatDivisionByZero => "float division by zero"
  | .complexDivisionByZero => "complex division by zero"
  | .zeroToNegative => "0.0 cannot be raised to a negative power"
  | .zeroToComplex => "0.0 to a negative or complex power"
  | .floatOutOfRange => "(34, 'Numerical result out of range')"
  | .complexOutOfRange => "complex exponentiation"
  | .quotientOutOfRange => "integer division result too large for a float"
  | .intTooLarge => "int too large to convert to float"
  | .negativeShift => "negative shift count"
  | .tooManyDigits => "too many digits in integer"

end LazyConfig.Arithmetic
