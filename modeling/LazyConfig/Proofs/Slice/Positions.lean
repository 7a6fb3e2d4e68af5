import LazyConfig.Evaluation.Follow
import Mathlib.Data.List.Sort
import Mathlib.Tactic.Linarith
import Mathlib.Tactic.Ring

/-!
# The positions of a slice

A slice of a list goes from position to position in steps. Forwards it visits what the standard
convention for slices says, but for a start beyond the end, which counts as the last position.
Backwards it walks the range between its bounds from the other end; where the stop is written out,
the walk begins one place behind it, and not one place before.
-/

namespace LazyConfig.Slice

open Evaluation

/-! ### Bounds -/

/-- The position that a bound of a list of the given size names. A negative bound counts from the
end once, and none lies in front of the list. -/
def place (size : Nat) (bound : Int) : Nat := (if bound < 0 then bound + size else bound).toNat

/-- Where a slice forwards starts: beyond the end of the list it starts with the last element. -/
def firstPlace (size : Nat) : Option Int → Nat
  | none => 0
  | some bound => min (place size bound) (size - 1)

/-- What a slice forwards stops before. -/
def lastPlace (size : Nat) : Option Int → Nat
  | none => size
  | some bound => min (place size bound) size

theorem firstPosition_eq {size : Nat} (nonempty : 0 < size) (start : Option Int) :
    firstPosition size start = firstPlace size start := by
  cases start with
  | none => rfl
  | some bound =>
    simp only [firstPosition, firstPlace, place]
    split <;> split <;> omega

theorem lastPlace_le (size : Nat) (stop : Option Int) : lastPlace size stop ≤ size := by
  cases stop with
  | none => exact le_rfl
  | some bound => exact Nat.min_le_right _ _

/-! ### Positions in steps -/

/-- The positions from the first one on in steps, as far as they are below the last one. -/
def ascending (first last step : Nat) : List Nat :=
  (List.range' first (last - first)).filter fun p => step ∣ p - first

/-- The positions from the first one down in steps, as far as they are not below the last one. -/
def descending (first last step : Nat) : List Nat :=
  (List.range' last (first + 1 - last)).reverse.filter fun p => step ∣ first - p

theorem mem_ascending {first last step p : Nat} :
    p ∈ ascending first last step ↔ first ≤ p ∧ p < last ∧ step ∣ p - first := by
  simp only [ascending, List.mem_filter, List.mem_range'_1, decide_eq_true_eq]
  constructor
  · rintro ⟨⟨above, below⟩, steps⟩
    exact ⟨above, by omega, steps⟩
  · rintro ⟨above, below, steps⟩
    exact ⟨⟨above, by omega⟩, steps⟩

theorem mem_descending {first last step p : Nat} :
    p ∈ descending first last step ↔ last ≤ p ∧ p ≤ first ∧ step ∣ first - p := by
  simp only [descending, List.mem_filter, List.mem_reverse, List.mem_range'_1, decide_eq_true_eq]
  constructor
  · rintro ⟨⟨above, below⟩, steps⟩
    exact ⟨above, by omega, steps⟩
  · rintro ⟨above, below, steps⟩
    exact ⟨⟨above, by omega⟩, steps⟩

theorem pairwise_ascending (first last step : Nat) :
    (ascending first last step).Pairwise (· < ·) :=
  List.Pairwise.filter _ List.pairwise_lt_range'

theorem pairwise_descending (first last step : Nat) :
    (descending first last step).Pairwise (· > ·) :=
  List.Pairwise.filter _ (List.pairwise_reverse.mpr List.pairwise_lt_range')

/-! ### The walk -/

/-- The walk visits what lies in steps from its first position on, up to its last one. -/
theorem mem_walkPositions {last step first p : Int} {count : Nat} :
    p ∈ walkPositions last step first count ↔
      ∃ i < count, p = first + step * i ∧ (if 0 < step then p ≤ last else last ≤ p) := by
  induction count generalizing first with
  | zero => simp [walkPositions]
  | succ count ih =>
    rw [walkPositions]
    by_cases inside : if 0 < step then first ≤ last else last ≤ first
    · rw [if_pos inside, List.mem_cons, ih]
      constructor
      · rintro (rfl | ⟨i, few, rfl, within⟩)
        · exact ⟨0, by omega, by simp, inside⟩
        · exact ⟨i + 1, by omega, by push_cast; ring, within⟩
      · rintro ⟨i, few, rfl, within⟩
        cases i with
        | zero =>
          left
          simp
        | succ i =>
          right
          exact ⟨i, by omega, by push_cast; ring, within⟩
    · -- the walk only leads away from where it could still be within its bounds
      rw [if_neg inside]
      constructor
      · intro among
        simp at among
      · rintro ⟨i, few, rfl, within⟩
        refine absurd ?_ inside
        have ahead : (0 : Int) ≤ i := Int.natCast_nonneg i
        split at within
        · rw [if_pos (by assumption)]
          nlinarith
        · rw [if_neg (by assumption)]
          nlinarith

/-- The walk goes on in one direction. -/
theorem pairwise_walkPositions {last step first : Int} (moves : step ≠ 0) (count : Nat) :
    (walkPositions last step first count).Pairwise fun p q => if 0 < step then p < q else q < p := by
  induction count generalizing first with
  | zero => exact .nil
  | succ count ih =>
    rw [walkPositions]
    by_cases inside : if 0 < step then first ≤ last else last ≤ first
    · rw [if_pos inside]
      apply List.Pairwise.cons _ ih
      intro p among
      obtain ⟨i, few, rfl, within⟩ := mem_walkPositions.mp among
      have ahead : (0 : Int) ≤ i := Int.natCast_nonneg i
      by_cases forward : 0 < step
      · rw [if_pos forward]
        nlinarith
      · rw [if_neg forward]
        have backward : step < 0 := by omega
        nlinarith
    · rw [if_neg inside]
      exact .nil

section

variable {size : Nat} {start stop : Option Int} {step first last : Int}

theorem slicePositions_eq (nonempty : 0 < size)
    (bounds : (if step < 0 ∧ firstPosition size start < lastPosition size step stop
      then (lastPosition size step stop, firstPosition size start)
      else (firstPosition size start, lastPosition size step stop)) = (first, last)) :
    slicePositions size start stop step =
      (walkPositions last step first ((last - first).natAbs + 1)).filterMap fun (i : Int) =>
        if 0 ≤ i ∧ i < size then some i.toNat else none := by
  simp only [slicePositions, if_neg (Nat.ne_of_gt nonempty), bounds]

theorem mem_slicePositions (nonempty : 0 < size)
    (bounds : (if step < 0 ∧ firstPosition size start < lastPosition size step stop
      then (lastPosition size step stop, firstPosition size start)
      else (firstPosition size start, lastPosition size step stop)) = (first, last)) {p : Nat} :
    p ∈ slicePositions size start stop step ↔
      p < size ∧ (p : Int) ∈ walkPositions last step first ((last - first).natAbs + 1) := by
  rw [slicePositions_eq nonempty bounds, List.mem_filterMap]
  constructor
  · rintro ⟨i, among, found⟩
    split at found
    · rename_i inside
      obtain rfl : i.toNat = p := by simpa using found
      rw [Int.toNat_of_nonneg inside.1]
      exact ⟨by omega, among⟩
    · cases found
  · rintro ⟨inside, among⟩
    refine ⟨p, among, ?_⟩
    rw [if_pos ⟨Int.natCast_nonneg p, by exact_mod_cast inside⟩, Int.toNat_natCast]

/-- No slice leads out of the list. -/
theorem lt_of_mem_slicePositions {p : Nat} (among : p ∈ slicePositions size start stop step) :
    p < size := by
  by_cases empty : size = 0
  · rw [slicePositions, if_pos empty] at among
    cases among
  · exact ((mem_slicePositions (Nat.pos_of_ne_zero empty) rfl).mp among).1

theorem pairwise_slicePositions (moves : step ≠ 0) :
    (slicePositions size start stop step).Pairwise fun p q => if 0 < step then p < q else q < p := by
  by_cases empty : size = 0
  · rw [slicePositions, if_pos empty]
    exact .nil
  · rw [slicePositions_eq (Nat.pos_of_ne_zero empty) rfl]
    apply List.Pairwise.filterMap _ _ (pairwise_walkPositions moves _)
    intro i j order p isP q isQ
    rw [Option.ite_none_right_eq_some, Option.some.injEq] at isP isQ
    obtain ⟨inside, rfl⟩ := isP
    obtain ⟨inside', rfl⟩ := isQ
    by_cases forward : 0 < step
    · rw [if_pos forward] at order ⊢
      omega
    · rw [if_neg forward] at order ⊢
      omega

end

/-! ### Forwards -/

/-- Forwards a slice visits the positions from its start on, in steps, below its stop. -/
theorem slicePositions_forward {size : Nat} {step : Int} (nonempty : 0 < size) (forward : 1 ≤ step)
    (start stop : Option Int) :
    slicePositions size start stop step =
      ascending (firstPlace size start) (lastPlace size stop) step.toNat := by
  have isFirst : firstPosition size start = firstPlace size start := firstPosition_eq nonempty start
  have isLast : lastPosition size step stop = (lastPlace size stop : Int) - 1 := by
    cases stop with
    | none => rfl
    | some bound =>
      simp only [lastPosition, lastPlace, place]
      split <;> split <;> omega
  have below : lastPlace size stop ≤ size := lastPlace_le size stop
  obtain ⟨k, rfl⟩ : ∃ k : Nat, step = k := ⟨step.toNat, by omega⟩
  -- both lists are sorted, so it is enough that they have the same members
  apply List.Pairwise.eq_of_mem_iff (r := (· < ·)) _ (pairwise_ascending _ _ _)
  · intro p
    rw [mem_slicePositions nonempty (if_neg (by omega)), mem_walkPositions, mem_ascending, isFirst,
      isLast, if_pos (by omega), Int.toNat_natCast]
    constructor
    · rintro ⟨-, i, -, isPlace, within⟩
      have isPlace : p = firstPlace size start + k * i := by exact_mod_cast isPlace
      refine ⟨by omega, by omega, i, ?_⟩
      rw [isPlace, Nat.add_sub_cancel_left]
    · rintro ⟨above, within, i, steps⟩
      have isPlace : p = firstPlace size start + k * i := by omega
      have few : i ≤ k * i := Nat.le_mul_of_pos_left i (by omega)
      refine ⟨by omega, i, by omega, ?_, by omega⟩
      exact_mod_cast isPlace
  · apply (pairwise_slicePositions (by omega)).imp
    intro p q order
    rwa [if_pos (by omega)] at order

/-! ### Backwards -/

/-- Where a slice backwards starts: at the end of the list, or one place behind its stop. -/
def behindPlace (size : Nat) : Option Int → Nat
  | none => size - 1
  | some bound => min (place size bound) size + 1

/-- Backwards a slice visits the positions from one place behind its stop on, in steps, as far as
they are not below its start. -/
theorem slicePositions_backward {size : Nat} {step : Int} {start stop : Option Int}
    (ordered : firstPlace size start < lastPlace size stop) (backward : step ≤ -1) :
    slicePositions size start stop step =
      (descending (behindPlace size stop) (firstPlace size start) step.natAbs).filter (· < size) := by
  have below : lastPlace size stop ≤ size := lastPlace_le size stop
  have nonempty : 0 < size := by omega
  have isFirst : firstPosition size start = firstPlace size start := firstPosition_eq nonempty start
  have isBehind : lastPosition size step stop = behindPlace size stop := by
    cases stop with
    | none =>
      simp only [lastPosition, behindPlace]
      omega
    | some bound =>
      simp only [lastPosition, behindPlace, place]
      split <;> split <;> omega
  have notBehind : firstPlace size start ≤ behindPlace size stop := by
    cases stop with
    | none =>
      simp only [lastPlace, behindPlace] at ordered ⊢
      omega
    | some bound =>
      simp only [lastPlace, behindPlace] at ordered ⊢
      omega
  -- the bounds are swapped, unless both are the last position of all
  have bounds : (if step < 0 ∧ firstPosition size start < lastPosition size step stop
      then (lastPosition size step stop, firstPosition size start)
      else (firstPosition size start, lastPosition size step stop)) =
        ((behindPlace size stop : Int), (firstPlace size start : Int)) := by
    rw [isFirst, isBehind]
    split
    · rfl
    · rw [Prod.mk.injEq]
      omega
  obtain ⟨k, rfl⟩ : ∃ k : Nat, step = -k := ⟨step.natAbs, by omega⟩
  apply List.Pairwise.eq_of_mem_iff (r := (· > ·)) _ (.filter _ (pairwise_descending _ _ _))
  · intro p
    rw [mem_slicePositions nonempty bounds, mem_walkPositions, List.mem_filter, mem_descending,
      if_neg (by omega), Int.natAbs_neg, Int.natAbs_natCast, decide_eq_true_eq]
    constructor
    · rintro ⟨inside, i, -, isPlace, within⟩
      have isPlace : behindPlace size stop = p + k * i := by
        zify
        linarith
      refine ⟨⟨by omega, by omega, i, ?_⟩, inside⟩
      rw [isPlace, Nat.add_sub_cancel_left]
    · rintro ⟨⟨above, within, i, steps⟩, inside⟩
      have isPlace : behindPlace size stop = p + k * i := by omega
      have few : i ≤ k * i := Nat.le_mul_of_pos_left i (by omega)
      refine ⟨inside, i, by omega, ?_, by omega⟩
      rw [isPlace]
      push_cast
      ring
  · apply (pairwise_slicePositions (by omega)).imp
    intro p q order
    rwa [if_neg (by omega)] at order

end LazyConfig.Slice
