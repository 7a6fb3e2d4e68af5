import LazyConfig.Text.CharClass
import Mathlib.Data.List.Forall2
import Mathlib.Data.List.Induction
import Mathlib.Data.Nat.Digits.Defs

/-!
# Digits and the numbers that they write

A number that digits write is their positional value. The hexadecimal digits are ten digits and six
letters, the letters in either case.
-/

namespace LazyConfig.Text

variable {digits : List Char} {c : Char}

/-- The number that digits write is their positional value. -/
theorem ofDigits_eq_ofDigits_reverse (radix : Nat) (values : List Nat) :
    ofDigits radix values = Nat.ofDigits radix values.reverse := by
  -- the last digit has the weight one, so it is taken off first
  induction values using List.reverseRecOn with
  | nil => rfl
  | append_singleton values last ih =>
    rw [ofDigits_append, ih, List.reverse_append, List.reverse_singleton, List.singleton_append,
      Nat.ofDigits_cons]
    simp only [ofDigits, List.foldl_cons, List.foldl_nil, List.length_singleton, Nat.pow_eq,
      Nat.pow_one, Nat.zero_mul, Nat.zero_add]
    rw [Nat.mul_comm, Nat.add_comm]

/-- A character with a small code point is one of those below a bound. -/
theorem holds_of_toNat_lt {p : Char → Bool} {bound : Nat} (all : ∀ n < bound, p (Char.ofNat n))
    (small : c.toNat < bound) : p c := by
  have holds := all c.toNat small
  rwa [Char.ofNat_toNat] at holds

/-- The last hexadecimal digit is the small letter f. -/
theorem toNat_lt_of_isHexDigit (isHex : isHexDigit c) : c.toNat < 103 := by
  by_contra large
  have beyond (last : Char) (low : last.toNat < 103) : ¬c ≤ last := by
    intro le
    have order : c.toNat ≤ last.toNat := le
    omega
  simp [isHexDigit, hexValue?, isDigit, beyond '9' (by decide), beyond 'f' (by decide),
    beyond 'F' (by decide)] at isHex

/-- The hexadecimal digits with their values. -/
def hexDigits : List (Char × Nat) :=
  ['0', '1', '2', '3', '4', '5', '6', '7', '8', '9', 'a', 'b', 'c', 'd', 'e', 'f'].zipIdx ++
    ['A', 'B', 'C', 'D', 'E', 'F'].zipIdx 10

theorem hexValue?_eq_some_iff {value : Nat} :
    hexValue? c = some value ↔ (c, value) ∈ hexDigits := by
  constructor
  · intro isValue
    have isHex : isHexDigit c := by rw [isHexDigit, isValue, Option.isSome_some]
    -- there is no digit behind the letter f, and all characters up to it are tried
    have all : ∀ n < 103, (hexValue? (Char.ofNat n)).all fun value =>
        hexDigits.contains (Char.ofNat n, value) := by
      decide +kernel
    have listed := holds_of_toNat_lt (p := fun c => (hexValue? c).all fun value =>
      hexDigits.contains (c, value)) all (toNat_lt_of_isHexDigit isHex)
    simpa [isValue] using listed
  · intro listed
    have all : ∀ digit ∈ hexDigits, hexValue? digit.1 = some digit.2 := by decide +kernel
    exact all _ listed

/-- Hexadecimal digits and the number that they write, the most significant digit first. -/
def WritesHex (digits : List Char) (number : Nat) : Prop :=
  ∃ values, List.Forall₂ (fun digit value => (digit, value) ∈ hexDigits) digits values ∧
    Nat.ofDigits 16 values.reverse = number

theorem forall₂_hexValue?_iff {values : List Nat} :
    List.Forall₂ (fun digit value => hexValue? digit = some value) digits values ↔
      digits.all isHexDigit ∧ digits.filterMap hexValue? = values := by
  induction digits generalizing values with
  | nil => simp [eq_comm]
  | cons digit digits ih =>
    rw [List.forall₂_cons_left_iff]
    cases isValue : hexValue? digit with
    | none => simp [isHexDigit, isValue]
    | some value =>
      simp only [ih, Option.some.injEq, List.all_cons, isHexDigit, isValue, Option.isSome_some,
        Bool.true_and, List.filterMap_cons]
      constructor
      · rintro ⟨_, others, rfl, ⟨allHex, rfl⟩, rfl⟩
        exact ⟨allHex, rfl⟩
      · rintro ⟨allHex, rfl⟩
        exact ⟨value, _, rfl, ⟨allHex, rfl⟩, rfl⟩

theorem writesHex_iff {number : Nat} :
    WritesHex digits number ↔ digits.all isHexDigit ∧ hexNumber digits = number := by
  unfold WritesHex
  simp only [← hexValue?_eq_some_iff, forall₂_hexValue?_iff, hexNumber,
    ofDigits_eq_ofDigits_reverse]
  constructor
  · rintro ⟨values, ⟨allHex, rfl⟩, same⟩
    exact ⟨allHex, same⟩
  · rintro ⟨allHex, same⟩
    exact ⟨_, ⟨allHex, rfl⟩, same⟩

example : WritesHex ['2', 'a', 'F'] 687 := writesHex_iff.mpr (by decide)

end LazyConfig.Text
