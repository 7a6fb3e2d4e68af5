import LazyConfig.Proofs.Number.Binary64

/-!
# Powers of integers

A power that fits the bound is exact. Beyond it the base is a unit, whose power only depends on the
parity of the exponent's nearest binary64 number, or the power is out of range.
-/

namespace LazyConfig.Number

open Binary64 (IsPositive)

/-! ### Powers of the units -/

/-- The number `x` is one or its opposite. -/
structure IsUnit (x : Float) : Prop where
  isNumber : x.isNaN = false
  isFinite : x.isInf = false
  nonzero : (x == 0) = false
  magnitude : (x.abs == 1) = true

theorem isUnit_one : IsUnit 1 := by constructor <;> decide +kernel

theorem isUnit_negOne : IsUnit (-1) := by constructor <;> decide +kernel

variable {x y : Float} {n : Nat}

theorem isOdd_of_isPositive (positive : IsPositive y n) : isOdd y = decide (n % 2 = 1) := by
  rw [isOdd, positive.integral, positive.truncated, Bool.true_and, Option.any_some]
  exact decide_eq_decide.mpr (by omega)

/-- A power of a unit is a unit, which only the parity of the exponent matters to. -/
theorem floatPower_unit (isUnit : IsUnit x) (positive : IsPositive y n) :
    floatPower x y = .ok (float (if x < 0 ∧ n % 2 = 1 then -1 else 1)) := by
  have finiteOne : (1 : Float).isInf = false := isUnit_one.isFinite
  have isOdd := isOdd_of_isPositive positive
  -- neither number is special, and the magnitude of the base is not raised to any power
  simp only [floatPower, finitePower, positive.nonzero, positive.isNumber, positive.isFinite,
    positive.integral, isUnit.isNumber, isUnit.isFinite, isUnit.nonzero, isUnit.magnitude,
    finiteOne, isOdd, Bool.false_eq_true, if_false, if_true, Bool.not_true, Bool.and_false,
    Bool.and_eq_true, decide_eq_true_eq]

/-! ### Integers -/

theorem length_eq_size (a : Int) : Bitwise.length a = a.natAbs.size := by
  rw [Bitwise.length]
  by_cases zero : a = 0
  · rw [if_pos zero, zero]
    rfl
  · rw [if_neg zero]
    have nonzero : a.natAbs ≠ 0 := Int.natAbs_ne_zero.mpr zero
    apply Nat.le_antisymm
    · exact Nat.lt_size.mpr (Nat.log2_self_le nonzero)
    · exact Nat.size_le.mpr Nat.lt_log2_self

variable {a : Int} {b : Nat}

/-- A power within the bound is exact. -/
theorem intPower_exact (fits : a.natAbs.size * b ≤ exactPowerBits) :
    intPower a b = .ok (a ^ b) := by
  have within : 0 ≤ (b : Int) ∧ (Bitwise.length a : Int) * b ≤ exactPowerBits := by
    rw [length_eq_size]
    exact ⟨by omega, by exact_mod_cast fits⟩
  rw [intPower, if_pos within, exactPower_eq_pow, Int.toNat_natCast]
  rfl

theorem intPower_rounded (long : exactPowerBits < a.natAbs.size * b) :
    intPower a b = roundedPower a b := by
  have beyond : ¬ (0 ≤ (b : Int) ∧ (Bitwise.length a : Int) * b ≤ exactPowerBits) := by
    rintro ⟨-, fits⟩
    rw [length_eq_size] at fits
    have : a.natAbs.size * b ≤ exactPowerBits := by exact_mod_cast fits
    omega
  rw [intPower, if_neg beyond]

/-- A base of two binary digits or more is out of range beyond the bound. -/
theorem roundedPower_large (large : 2 ≤ a.natAbs) (long : exactPowerBits < a.natAbs.size * b) :
    ∃ fault, roundedPower a b = .error fault := by
  have digits : 2 ≤ a.natAbs.size := Nat.lt_size.mpr large
  have beyond : 1024 ≤ ((Bitwise.length a - 1 : Nat) : Int) * b := by
    obtain ⟨more, isSize⟩ : ∃ more, a.natAbs.size = more + 2 := ⟨a.natAbs.size - 2, by omega⟩
    rw [length_eq_size, isSize, show more + 2 - 1 = more + 1 by omega]
    rw [isSize, show exactPowerBits = 4096 from rfl] at long
    -- all but one of the digits are at least half of them
    have half : (more + 2) * b ≤ 2 * ((more + 1) * b) := by
      rw [← Nat.mul_assoc]
      exact Nat.mul_le_mul_right b (by omega)
    have most : 1024 ≤ (more + 1) * b := by omega
    calc (1024 : Int) ≤ (((more + 1) * b : Nat) : Int) := Int.ofNat_le.mpr most
      _ = ((more + 1 : Nat) : Int) * b := Int.natCast_mul (more + 1) b
  rw [roundedPower]
  cases floatOfInt a with
  | error fault => exact ⟨fault, rfl⟩
  | ok x =>
    cases floatOfInt b with
    | error fault => exact ⟨fault, rfl⟩
    | ok y =>
      refine ⟨.floatOutOfRange, ?_⟩
      simp only [bind, Except.bind, if_pos beyond]
      rfl

theorem floatOfInt_cases (b : Nat) (positive : 0 < b) :
    (∃ fault, floatOfInt b = .error fault) ∨
      ∃ y m, floatOfInt b = .ok y ∧ IsPositive y m ∧ (m % 2 = 1 ↔ b % 2 = 1 ∧ b < 2 ^ 53) := by
  rw [floatOfInt]
  cases near : Binary64.ofInt? b with
  | none => exact .inl ⟨_, rfl⟩
  | some y =>
    obtain ⟨m, isPositive, parity⟩ := Binary64.isPositive_ofInt? positive near
    exact .inr ⟨y, m, rfl, isPositive, parity⟩

/-- A unit to a power is refused, or is a unit by the parity that the exponent has as a binary64
number. -/
theorem roundedPower_unit (isUnit : a = 1 ∨ a = -1) (positive : 0 < b) :
    (∃ fault, roundedPower a b = .error fault) ∨
      roundedPower a b = .ok (if a = -1 ∧ b % 2 = 1 ∧ b < 2 ^ 53 then -1 else 1) := by
  -- both units are binary64 numbers, and a power of them is no more than they are
  obtain ⟨x, lifted, unit, isNegative⟩ :
      ∃ x, floatOfInt a = .ok x ∧ IsUnit x ∧ (x < 0 ↔ a = -1) := by
    rcases isUnit with rfl | rfl
    · exact ⟨1, rfl, isUnit_one, by decide +kernel⟩
    · exact ⟨-1, rfl, isUnit_negOne, by decide +kernel⟩
  have small : ¬ 1024 ≤ ((Bitwise.length a - 1 : Nat) : Int) * b := by
    rcases isUnit with rfl | rfl
    all_goals
      rw [show (Bitwise.length _ - 1 : Nat) = 0 from rfl]
      omega
  rcases floatOfInt_cases b positive with ⟨fault, failed⟩ | ⟨y, m, near, isPositive, parity⟩
  · refine .inl ⟨fault, ?_⟩
    simp only [roundedPower, lifted, failed, bind, Except.bind]
  · right
    -- the result is a unit again, and truncating it gives the integer it is
    simp only [roundedPower, lifted, near, floatPower_unit unit isPositive, bind, Except.bind,
      if_neg small, isNegative, parity]
    have ofOne : Binary64.truncate? 1 = some 1 := by decide +kernel
    have ofNegOne : Binary64.truncate? (-1) = some (-1) := by decide +kernel
    split
    · rw [ofNegOne]
      rfl
    · rw [ofOne]
      rfl

/-- An odd exponent of more than 53 digits is rounded to an even one, if it is not out of range. -/
theorem intPower_negOne (odd : b % 2 = 1) (long : 2 ^ 53 < b) :
    (∃ fault, intPower (-1) b = .error fault) ∨ intPower (-1) b = .ok 1 := by
  have one : (-1 : Int).natAbs.size = 1 := Nat.size_one
  rw [intPower_rounded (by rw [one, show exactPowerBits = 4096 from rfl]; omega)]
  have rounded := roundedPower_unit (a := -1) (b := b) (.inr rfl) (by omega)
  rwa [if_neg (by omega)] at rounded

/-- The power of an integer to a natural exponent is exact, or refused if it is long, but for odd
powers of the negative unit whose exponent has more than 53 digits. -/
theorem intPower_cases (a : Int) (b : Nat) :
    intPower a b = .ok (a ^ b) ∨
      (exactPowerBits < a.natAbs.size * b ∧ ∃ fault, intPower a b = .error fault) ∨
      (a = -1 ∧ b % 2 = 1 ∧ 2 ^ 53 < b) := by
  by_cases fits : a.natAbs.size * b ≤ exactPowerBits
  · exact .inl (intPower_exact fits)
  have long : exactPowerBits < a.natAbs.size * b := Nat.lt_of_not_le fits
  rw [intPower_rounded long]
  by_cases large : 2 ≤ a.natAbs
  · exact .inr (.inl ⟨long, roundedPower_large large long⟩)
  have positive : 0 < b := by
    rcases Nat.eq_zero_or_pos b with rfl | positive
    · simp at long
    · exact positive
  have nonzero : a ≠ 0 := by
    rintro rfl
    simp at long
  -- what is left are the bases of one digit, whose powers do not grow
  have isUnit : a = 1 ∨ a = -1 := by omega
  rcases roundedPower_unit isUnit positive with refused | rounded
  · exact .inr (.inl ⟨long, refused⟩)
  rw [rounded]
  rcases isUnit with rfl | rfl
  · rw [one_pow]
    exact .inl rfl
  rcases Nat.even_or_odd b with even | odd
  · have isEven := Nat.even_iff.mp even
    rw [if_neg (by omega)]
    exact .inl (congrArg _ even.neg_one_pow.symm)
  · have isOdd := Nat.odd_iff.mp odd
    by_cases short : b < 2 ^ 53
    · rw [if_pos ⟨rfl, isOdd, short⟩]
      exact .inl (congrArg _ odd.neg_one_pow.symm)
    · rw [if_neg (fun rounded => short rounded.2.2)]
      exact .inr (.inr ⟨rfl, isOdd, by omega⟩)

end LazyConfig.Number
