import LazyConfig.Number.Basic
import Mathlib

/-!
# Integers among the binary64 numbers

A positive integer of at most 53 binary digits is a binary64 number. A longer one is rounded to one
that is even, or is out of range. Both are read off the row of bits that rounding puts together: an
exponent field that is neither the least nor the greatest, and a fraction below it.
-/

namespace LazyConfig.Binary64

open Float.Model (Format)
open Float.Model.UnpackedFloat (Sign isNaNBits packComponents pack_unpack unpackExponent
  unpackMantissa unpackSign unpackExponent_packComponents unpackMantissa_packComponents
  unpackSign_packComponents)

/-! ### Rows of bits -/

/-- The row of bits of a positive number, given by its exponent field and its fraction. -/
def positiveRow (field fraction : Nat) : BitVec 64 :=
  packComponents .binary64 .positive (BitVec.ofNat 11 field) (BitVec.ofNat 52 fraction)

section

variable {field fraction : Nat}

theorem toNat_positiveRow (inField : field < 2 ^ 11) (inFraction : fraction < 2 ^ 52) :
    (positiveRow field fraction).toNat = field * 2 ^ 52 + fraction := by
  have low : (BitVec.ofNat 52 fraction).toNat = fraction := by
    rw [BitVec.toNat_ofNat, Nat.mod_eq_of_lt inFraction]
  have high : (BitVec.ofNat 11 field).toNat = field := by
    rw [BitVec.toNat_ofNat, Nat.mod_eq_of_lt inField]
  rw [positiveRow, packComponents, BitVec.toNat_append, BitVec.toNat_append, low, high,
    ← Nat.shiftLeft_add_eq_or_of_lt inFraction, Nat.shiftLeft_eq]
  simp [Sign.toBitVec]

theorem ofNat_ne_of_lt {width n m : Nat} (differ : n ≠ m) (first : n < 2 ^ width)
    (second : m < 2 ^ width) : BitVec.ofNat width n ≠ BitVec.ofNat width m := by
  intro same
  apply differ
  simpa [Nat.mod_eq_of_lt first, Nat.mod_eq_of_lt second] using congrArg BitVec.toNat same

/-- A row of bits whose field is neither the least nor the greatest stands for a finite number. -/
theorem unpack_positiveRow (normal : 0 < field) (inField : field < 2047)
    (inFraction : fraction < 2 ^ 52) :
    Float.Model.UnpackedFloat.unpack .binary64 (positiveRow field fraction) =
      .finite .positive (2 ^ 52 + fraction) ((field : Int) - 1075) (by omega) := by
  have isField : @unpackExponent .binary64 (positiveRow field fraction) =
      BitVec.ofNat 11 field := unpackExponent_packComponents
  have isFraction : @unpackMantissa .binary64 (positiveRow field fraction) =
      BitVec.ofNat 52 fraction := unpackMantissa_packComponents
  have isSign : @unpackSign .binary64 (positiveRow field fraction) = 0#1 :=
    unpackSign_packComponents ..
  have high : (BitVec.ofNat 11 field).toNat = field := by
    rw [BitVec.toNat_ofNat, Nat.mod_eq_of_lt (by omega)]
  have low : (BitVec.ofNat 52 fraction).toNat = fraction := by
    rw [BitVec.toNat_ofNat, Nat.mod_eq_of_lt inFraction]
  -- the fields for zeros and infinities are out of the question
  have notAll : BitVec.ofNat 11 field ≠ -1#_ :=
    ofNat_ne_of_lt (m := 2047) (by omega) (by omega) (by omega)
  have notZero : BitVec.ofNat 11 field ≠ 0#_ :=
    ofNat_ne_of_lt (m := 0) (by omega) (by omega) (by omega)
  have whole : (1#1 ++ BitVec.ofNat 52 fraction).toNat = 2 ^ 52 + fraction := by
    rw [BitVec.toNat_append, low, ← Nat.shiftLeft_add_eq_or_of_lt inFraction]
    simp [Nat.shiftLeft_eq]
  unfold Float.Model.UnpackedFloat.unpack
  simp only [isField, isFraction, isSign, if_neg notAll, if_neg notZero, high, whole]
  rfl

theorem isNaNBits_positiveRow (inField : field < 2047) :
    @isNaNBits .binary64 (positiveRow field fraction) = false := by
  have isField : @unpackExponent .binary64 (positiveRow field fraction) = BitVec.ofNat 11 field :=
    unpackExponent_packComponents
  refine decide_eq_false fun both => ?_
  exact ofNat_ne_of_lt (m := 2047) (by omega) (by omega) (by omega) (isField.symm.trans both.1)

theorem ofMagnitude_eq (inField : field < 2047) (inFraction : fraction < 2 ^ 52) :
    ofMagnitude false (field * 2 ^ 52 + fraction) =
      Float.ofBits (UInt64.ofBitVec (positiveRow field fraction)) := by
  have isRow : BitVec.ofNat 64 (field * 2 ^ 52 + fraction) = positiveRow field fraction := by
    apply BitVec.eq_of_toNat_eq
    rw [toNat_positiveRow (by omega) inFraction, BitVec.toNat_ofNat, Nat.mod_eq_of_lt (by omega)]
  rw [← isRow]
  rfl

theorem toBits_ofMagnitude (inField : field < 2047) (inFraction : fraction < 2 ^ 52) :
    (ofMagnitude false (field * 2 ^ 52 + fraction)).toBits =
      UInt64.ofBitVec (positiveRow field fraction) := by
  rw [ofMagnitude_eq inField inFraction]
  change UInt64.ofBitVec (Float.Model.UnpackedFloat.pack .binary64
    (Float.Model.UnpackedFloat.unpack .binary64 (positiveRow field fraction))) = _
  -- packing brings every row back but those of a NaN, of which there are many
  rw [pack_unpack, isNaNBits_positiveRow inField]
  rfl

theorem unpack_ofMagnitude (normal : 0 < field) (inField : field < 2047)
    (inFraction : fraction < 2 ^ 52) :
    (ofMagnitude false (field * 2 ^ 52 + fraction)).toModel.unpack =
      .finite .positive (2 ^ 52 + fraction) ((field : Int) - 1075) (by omega) := by
  rw [← unpack_positiveRow normal inField inFraction]
  change Float.Model.UnpackedFloat.unpack .binary64
    (ofMagnitude false (field * 2 ^ 52 + fraction)).toBits.toBitVec = _
  rw [toBits_ofMagnitude inField inFraction]

/-! ### What is read back -/

theorem decode?_ofMagnitude (normal : 0 < field) (inField : field < 2047)
    (inFraction : fraction < 2 ^ 52) :
    decode? (ofMagnitude false (field * 2 ^ 52 + fraction)) =
      some ⟨false, fraction + 2 ^ 52, (field : Int) - 1075⟩ := by
  have bits : (ofMagnitude false (field * 2 ^ 52 + fraction)).toBits.toNat =
      field * 2 ^ 52 + fraction := by
    rw [toBits_ofMagnitude inField inFraction]
    exact toNat_positiveRow (by omega) inFraction
  have low : (field * 2 ^ 52 + fraction) % signBit = field * 2 ^ 52 + fraction :=
    Nat.mod_eq_of_lt (show _ < 2 ^ 63 by omega)
  have isField : (field * 2 ^ 52 + fraction) / Nat.pow 2 52 = field := by
    change (field * 2 ^ 52 + fraction) / 2 ^ 52 = field
    omega
  have isFraction : (field * 2 ^ 52 + fraction) % Nat.pow 2 52 = fraction := by
    change (field * 2 ^ 52 + fraction) % 2 ^ 52 = fraction
    omega
  have positive : isNegative (ofMagnitude false (field * 2 ^ 52 + fraction)) = false := by
    rw [isNegative, bits]
    exact decide_eq_false (show ¬ 2 ^ 63 ≤ _ by omega)
  simp only [decode?, bits, low, isField, isFraction, positive]
  exact (if_neg (by omega)).trans (if_neg (by omega))

end

/-! ### Rounding integers -/

theorem log2_bounds {n : Nat} (positive : 0 < n) : 2 ^ n.log2 ≤ n ∧ n < 2 ^ (n.log2 + 1) :=
  (Nat.log2_eq_iff (by omega)).mp rfl

theorem scaled_nonneg (num den shift : Nat) :
    scaled num den (shift : Int) = (num, den * 2 ^ shift) := rfl

theorem scaled_negSucc (num den shift : Nat) :
    scaled num den (Int.negSucc shift) = (num * 2 ^ (shift + 1), den) := rfl

/-- The last place of an integer's significand lies 52 places behind its first one. -/
theorem lastPlace_integer {n : Nat} (positive : 0 < n) : lastPlace n 1 = (n.log2 : Int) - 52 := by
  obtain ⟨low, high⟩ := log2_bounds positive
  -- over the guess the integer has 54 digits, so that the guess is one place too low
  have quotient : 2 ^ 53 ≤ (scaled n 1 ((n.log2 : Int) - 53)).1 /
      (scaled n 1 ((n.log2 : Int) - 53)).2 := by
    by_cases large : 53 ≤ n.log2
    · obtain ⟨k, isLog⟩ : ∃ k, n.log2 = 53 + k := ⟨n.log2 - 53, by omega⟩
      rw [show (n.log2 : Int) - 53 = (k : Int) by omega, scaled_nonneg, Nat.one_mul,
        Nat.le_div_iff_mul_le (Nat.two_pow_pos k), ← Nat.pow_add, ← isLog]
      exact low
    · obtain ⟨k, isLog⟩ : ∃ k, 53 = n.log2 + (k + 1) := ⟨52 - n.log2, by omega⟩
      rw [show (n.log2 : Int) - 53 = Int.negSucc k by omega, scaled_negSucc, Nat.div_one, isLog,
        Nat.pow_add]
      exact Nat.mul_le_mul_right _ low
  have place : lastPlace n 1 = max (if (scaled n 1 ((n.log2 : Int) - 53)).1 /
      (scaled n 1 ((n.log2 : Int) - 53)).2 < 2 ^ 53 then (n.log2 : Int) - 53
        else (n.log2 : Int) - 53 + 1) (-1074) := rfl
  rw [place, if_neg (Nat.not_lt.mpr quotient)]
  omega

theorem infinityBits_eq : infinityBits = 2047 * 2 ^ 52 := rfl

theorem roundDiv_one (n : Nat) : roundDiv n 1 = n := by
  simp [roundDiv, Nat.mod_one]

theorem nearestBits_eq (num den : Nat) :
    nearestBits num den = min infinityBits ((lastPlace num den + 1074).toNat * 2 ^ 52 +
      roundDiv (scaled num den (lastPlace num den)).1 (scaled num den (lastPlace num den)).2) :=
  rfl

/-- An integer of at most 53 binary digits is kept as it is. -/
theorem nearestBits_short {n shift : Nat} (positive : 0 < n) (short : n.log2 + shift = 52) :
    ∃ fraction, fraction < 2 ^ 52 ∧ n * 2 ^ shift = 2 ^ 52 + fraction ∧
      nearestBits n 1 = (1075 - shift) * 2 ^ 52 + fraction := by
  obtain ⟨low, high⟩ := log2_bounds positive
  have first : 2 ^ 52 ≤ n * 2 ^ shift := by
    rw [← short, Nat.pow_add]
    exact Nat.mul_le_mul_right _ low
  have last : n * 2 ^ shift < 2 ^ 53 := by
    rw [show 53 = n.log2 + 1 + shift by omega, Nat.pow_add]
    exact Nat.mul_lt_mul_of_pos_right high (Nat.two_pow_pos shift)
  have place : lastPlace n 1 = -(shift : Int) := by
    rw [lastPlace_integer positive]
    omega
  have rounded : roundDiv (scaled n 1 (-(shift : Int))).1 (scaled n 1 (-(shift : Int))).2 =
      n * 2 ^ shift := by
    cases shift with
    | zero => exact (roundDiv_one _).trans (Nat.mul_one n).symm
    | succ shift => exact roundDiv_one _
  have field : (-(shift : Int) + 1074).toNat = 1074 - shift := by omega
  refine ⟨n * 2 ^ shift - 2 ^ 52, by omega, by omega, ?_⟩
  rw [nearestBits_eq, place, rounded, field, infinityBits_eq, Nat.min_eq_right (by omega)]
  omega

/-- A longer integer is rounded to a number whose last place is even. -/
theorem nearestBits_long {n : Nat} (long : 2 ^ 53 ≤ n) :
    ∃ field fraction, 1076 ≤ field ∧ fraction < 2 ^ 52 ∧
      nearestBits n 1 = min infinityBits (field * 2 ^ 52 + fraction) := by
  have positive : 0 < n := by omega
  obtain ⟨low, high⟩ := log2_bounds positive
  have large : 53 ≤ n.log2 := (Nat.le_log2 (by omega)).mpr long
  obtain ⟨k, isLog⟩ : ∃ k, n.log2 = 52 + k := ⟨n.log2 - 52, by omega⟩
  have place : lastPlace n 1 = (k : Int) := by
    rw [lastPlace_integer positive]
    omega
  -- rounding may reach the next power of two, which the field then counts
  have significand : 2 ^ 52 ≤ roundDiv n (2 ^ k) := by
    have near := (@roundDiv_near n _ (Nat.two_pow_pos k)).1
    rw [isLog, Nat.pow_add] at low
    have most : 2 * 2 ^ 52 * 2 ^ k ≤ (2 * roundDiv n (2 ^ k) + 1) * 2 ^ k := by
      rw [Nat.mul_assoc]
      omega
    have := Nat.le_of_mul_le_mul_right most (Nat.two_pow_pos k)
    omega
  have field : ((k : Int) + 1074).toNat = k + 1074 := by omega
  refine ⟨k + 1074 + roundDiv n (2 ^ k) / 2 ^ 52, roundDiv n (2 ^ k) % 2 ^ 52, ?_, ?_, ?_⟩
  · have := (Nat.le_div_iff_mul_le (Nat.two_pow_pos 52)).mpr (show 1 * 2 ^ 52 ≤ _ by omega)
    omega
  · exact Nat.mod_lt _ (Nat.two_pow_pos 52)
  · rw [nearestBits_eq, place, scaled_nonneg, Nat.one_mul, field, Nat.add_mul (k + 1074),
      Nat.add_assoc, Nat.div_add_mod']

/-! ### Integers among binary64 numbers -/

/-- The number `x` is the positive integer `n`. -/
structure IsPositive (x : Float) (n : Nat) : Prop where
  isNumber : x.isNaN = false
  isFinite : x.isInf = false
  nonzero : (x == 0) = false
  integral : Number.isIntegral x = true
  truncated : truncate? x = some (n : Int)

section

variable {field fraction n : Nat}

theorem isPositive_ofMagnitude (normal : 0 < field) (inField : field < 2047)
    (inFraction : fraction < 2 ^ 52)
    (integral : Number.isIntegral (ofMagnitude false (field * 2 ^ 52 + fraction)) = true)
    (truncated : truncate? (ofMagnitude false (field * 2 ^ 52 + fraction)) = some (n : Int)) :
    IsPositive (ofMagnitude false (field * 2 ^ 52 + fraction)) n := by
  have unpacked := unpack_ofMagnitude normal inField inFraction
  have zero : (0 : Float).toModel.unpack = .zero .positive := rfl
  refine ⟨?_, ?_, ?_, integral, truncated⟩
  · change Float.Model.UnpackedFloat.isNaN
      (ofMagnitude false (field * 2 ^ 52 + fraction)).toModel.unpack = false
    rw [unpacked]
    rfl
  · change Float.Model.UnpackedFloat.isInf
      (ofMagnitude false (field * 2 ^ 52 + fraction)).toModel.unpack = false
    rw [unpacked]
    rfl
  · change Float.Model.UnpackedFloat.beq
      (ofMagnitude false (field * 2 ^ 52 + fraction)).toModel.unpack (0 : Float).toModel.unpack =
        false
    rw [unpacked, zero]
    rfl

/-- Beyond 53 binary digits there are only even numbers. -/
theorem isPositive_long (long : 1076 ≤ field) (inField : field < 2047)
    (inFraction : fraction < 2 ^ 52) :
    ∃ n, n % 2 = 0 ∧ IsPositive (ofMagnitude false (field * 2 ^ 52 + fraction)) n := by
  obtain ⟨places, rfl⟩ : ∃ places, field = 1076 + places := ⟨field - 1076, by omega⟩
  have parts := decode?_ofMagnitude (show 0 < 1076 + places by omega) inField inFraction
  have exponent : ((1076 + places : Nat) : Int) - 1075 = ((places + 1 : Nat) : Int) := by omega
  rw [exponent] at parts
  refine ⟨(fraction + 2 ^ 52) * 2 ^ (places + 1), ?_,
    isPositive_ofMagnitude (by omega) inField inFraction ?_ ?_⟩
  · rw [Nat.pow_succ 2 places, ← Nat.mul_assoc, Nat.mul_mod_left]
  · rw [Number.isIntegral, parts]
    exact decide_eq_true (Nat.mod_one _)
  · rw [truncate?, parts]
    exact congrArg some (Int.tdiv_one _)

/-- A shorter integer is found again. -/
theorem isPositive_short {shift : Nat} (short : shift ≤ 52) (inFraction : fraction < 2 ^ 52)
    (significand : n * 2 ^ shift = 2 ^ 52 + fraction) :
    IsPositive (ofMagnitude false ((1075 - shift) * 2 ^ 52 + fraction)) n := by
  have parts := decode?_ofMagnitude (show 0 < 1075 - shift by omega) (by omega) inFraction
  rw [Nat.add_comm fraction, ← significand,
    show ((1075 - shift : Nat) : Int) - 1075 = -(shift : Int) by omega] at parts
  refine isPositive_ofMagnitude (by omega) (by omega) inFraction ?_ ?_
  · rw [Number.isIntegral, parts]
    cases shift with
    | zero => exact decide_eq_true (Nat.mod_one _)
    | succ places => exact decide_eq_true (Nat.mul_mod_left n (2 ^ (places + 1)))
  · rw [truncate?, parts]
    cases shift with
    | zero => exact congrArg some (by simp [Parts.fraction, Parts.magnitude])
    | succ places =>
      have back : ((n * 2 ^ (places + 1) : Nat) : Int).tdiv ((2 ^ (places + 1) : Nat) : Int) =
          n := by
        rw [← Int.ofNat_tdiv, Nat.mul_div_cancel _ (Nat.two_pow_pos _)]
      exact congrArg some back

end

theorem not_isFinite_infinity : (ofMagnitude false infinityBits).isFinite = false := by
  decide +kernel

/-- A positive integer that has a binary64 number near it. The number is odd if the integer is and
has no more than 53 binary digits. -/
theorem isPositive_ofInt? {n : Nat} (positive : 0 < n) {x : Float} (near : ofInt? n = some x) :
    ∃ m, IsPositive x m ∧ (m % 2 = 1 ↔ n % 2 = 1 ∧ n < 2 ^ 53) := by
  have nearest : nearest (decide ((n : Int) < 0)) (n : Int).natAbs 1 =
      ofMagnitude false (nearestBits n 1) := by
    rw [LazyConfig.Binary64.nearest, decide_eq_false (by omega), Int.natAbs_natCast,
      if_neg (by omega)]
  simp only [ofInt?, nearest, Option.ite_none_right_eq_some] at near
  obtain ⟨finite, isNear⟩ := near
  obtain rfl := Option.some.inj isNear
  by_cases short : n < 2 ^ 53
  · have digits : n.log2 < 53 := (Nat.log2_lt (by omega)).mpr short
    obtain ⟨fraction, inFraction, significand, bits⟩ :=
      nearestBits_short positive (show n.log2 + (52 - n.log2) = 52 by omega)
    rw [bits]
    exact ⟨n, isPositive_short (by omega) inFraction significand, by omega⟩
  · obtain ⟨field, fraction, long, inFraction, bits⟩ := nearestBits_long (Nat.not_lt.mp short)
    have inField : field < 2047 := by
      rcases Nat.lt_or_ge field 2047 with inField | beyond
      · exact inField
      · rw [bits, infinityBits_eq, Nat.min_eq_left (by omega), ← infinityBits_eq,
          not_isFinite_infinity] at finite
        cases finite
    rw [bits, infinityBits_eq, Nat.min_eq_right (by omega)]
    obtain ⟨m, even, isPositive⟩ := isPositive_long long inField inFraction
    exact ⟨m, isPositive, by omega⟩

end LazyConfig.Binary64
