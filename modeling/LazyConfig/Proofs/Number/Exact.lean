import LazyConfig.Number.Basic
import LazyConfig.Syntax.Operator
import Mathlib.Algebra.Order.Field.Basic
import Mathlib.Data.Int.Bitwise
import Mathlib.Data.Rat.Floor

/-!
# Exact results of integer operators

What an operator on integers is to give, said without the functions that compute it: quotients are
rounded down to the next integer, remainders are what such a quotient leaves, and a bitwise operator
works on every place of the endless two's complement rows of its operands.
-/

namespace LazyConfig

namespace Bitwise

/-! ### Rows of binary digits -/

theorem and_add_ldiff (m n : Nat) : (m &&& n) + Nat.ldiff m n = m := by
  induction m using Nat.binaryRec generalizing n with
  | zero => simp [Nat.ldiff]
  | bit digit m ih =>
    rw [← Nat.bit_bodd_div2 n, Nat.land_bit, Nat.ldiff_bit]
    have rest := ih n.div2
    -- the last digits never carry
    cases digit <;> cases n.bodd <;> simp only [Nat.bit_val, Bool.and_true, Bool.and_false,
      Bool.not_true, Bool.not_false, Bool.toNat_true, Bool.toNat_false] <;> omega

theorem without_eq_ldiff (m n : Nat) : without m n = Nat.ldiff m n := by
  have both := and_add_ldiff m n
  rw [without]
  omega

theorem and_eq_land (a b : Int) : and a b = a.land b := by
  cases a <;> cases b <;> simp only [and, Int.land, without_eq_ldiff] <;> rfl

theorem or_eq_lor (a b : Int) : or a b = a.lor b := by
  cases a <;> cases b <;> simp only [or, Int.lor, without_eq_ldiff]
  rfl

theorem xor_eq_xor (a b : Int) : xor a b = a.xor b := by
  cases a <;> cases b <;> rfl

end Bitwise

namespace Number

/-! ### Quotients -/

/-- The quotient of integers is rounded down, whatever their signs are. -/
theorem fdiv_eq_floor {a b : Int} (nonzero : b ≠ 0) : a.fdiv b = ⌊(a : ℚ) / b⌋ := by
  rcases Int.lt_or_gt_of_ne nonzero with negative | positive
  · obtain ⟨d, rfl⟩ : ∃ d : Nat, b = -(d : Int) := ⟨b.natAbs, by omega⟩
    have flipped : (a : ℚ) / ((-(d : Int) : Int) : ℚ) = ((-a : Int) : ℚ) / (d : ℚ) := by
      push_cast
      rw [div_neg, neg_div]
    rw [flipped, Rat.floor_intCast_div_natCast, ← Int.fdiv_eq_ediv_of_nonneg _ (by omega),
      ← Int.neg_fdiv_neg, neg_neg]
  · obtain ⟨d, rfl⟩ : ∃ d : Nat, b = (d : Int) := ⟨b.toNat, by omega⟩
    rw [Int.cast_natCast, Rat.floor_intCast_div_natCast, Int.fdiv_eq_ediv_of_nonneg _ (by omega)]

end Number

namespace Syntax.InfixOp

/-! ### What is exact -/

/-- The integer `n` is the exact result of an operator on the integers `a` and `b`. -/
def Exact (op : InfixOp) (a b n : Int) : Prop :=
  match op with
  | .add => n = a + b
  | .subtract => n = a - b
  | .multiply => n = a * b
  | .intDivide => n = ⌊(a : ℚ) / b⌋
  | .modulo => n = a - b * ⌊(a : ℚ) / b⌋
  | .bitAnd => ∀ place, n.testBit place = (a.testBit place && b.testBit place)
  | .bitOr => ∀ place, n.testBit place = (a.testBit place || b.testBit place)
  | .bitXor => ∀ place, n.testBit place = (a.testBit place ^^ b.testBit place)
  | _ => False

/-- The operators that stay within the integers and lose nothing. -/
def isExact : InfixOp → Bool
  | .add | .subtract | .multiply | .intDivide | .modulo | .bitAnd | .bitOr | .bitXor => true
  | _ => false

/-- The operators that a zero on the right leaves without a result. -/
def divides : InfixOp → Bool
  | .intDivide | .modulo => true
  | _ => false

/-- The fault of a division by zero. -/
def zeroFault : InfixOp → Arithmetic.Fault
  | .intDivide => .intDivisionByZero
  | _ => .moduloByZero

end Syntax.InfixOp

end LazyConfig
