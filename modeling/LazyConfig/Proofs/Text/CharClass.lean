import LazyConfig.Proofs.Text.Digit
import Mathlib.Data.List.TakeWhile

/-!
# Classes of characters

The tables of letters, decimal digits, other numerals and blanks have no character in common. A word
can therefore neither start with a decimal digit nor have a blank in it, in any script.
-/

namespace LazyConfig.Text

variable {c : Char}

/-! ### Ranges -/

/-- What ascending ranges cover lies in one of them. -/
theorem exists_range_of_covers {ranges : List (Nat × Nat)} {n : Nat} (covered : covers ranges n) :
    ∃ range ∈ ranges, range.1 ≤ n ∧ n ≤ range.2 := by
  induction ranges with
  | nil => cases covered
  | cons range ranges ih =>
    obtain ⟨low, high⟩ := range
    unfold covers at covered
    split at covered
    · cases covered
    · rcases Bool.or_eq_true _ _ ▸ covered with here | behind
      · exact ⟨(low, high), List.mem_cons_self, by omega, of_decide_eq_true here⟩
      · obtain ⟨range, among, inside⟩ := ih behind
        exact ⟨range, List.mem_cons_of_mem _ among, inside⟩

/-- Whether no range of the first table meets one of the second. -/
def areApart (first second : List (Nat × Nat)) : Bool :=
  first.all fun a => second.all fun b => a.2 < b.1 || b.2 < a.1

theorem false_of_areApart {first second : List (Nat × Nat)} (apart : areApart first second)
    {n : Nat} (inFirst : ∃ range ∈ first, range.1 ≤ n ∧ n ≤ range.2)
    (inSecond : ∃ range ∈ second, range.1 ≤ n ∧ n ≤ range.2) : False := by
  obtain ⟨a, amongFirst, insideFirst⟩ := inFirst
  obtain ⟨b, amongSecond, insideSecond⟩ := inSecond
  have ends := List.all_eq_true.mp (List.all_eq_true.mp apart a amongFirst) b amongSecond
  simp only [Bool.or_eq_true, decide_eq_true_eq] at ends
  omega

/-- Whether no range of the first table meets one of the second, for tables that ascend. What lies
before one range of the second table lies before all that follow it. -/
def takeTurns : List (Nat × Nat) → List (Nat × Nat) → Bool
  | _, [] => true
  | first, b :: second =>
    let ahead := first.dropWhile (·.2 < b.1)
    ahead.head?.all (b.2 < ·.1) && takeTurns ahead second

/-- Tables that ascend are compared in one pass. -/
theorem areApart_of_takeTurns {first second : List (Nat × Nat)}
    (ascending : first.IsChain (·.1 ≤ ·.1)) (ascending' : second.IsChain (·.1 ≤ ·.1))
    (turns : takeTurns first second) : areApart first second := by
  rw [List.isChain_iff_pairwise] at ascending ascending'
  induction second generalizing first with
  | nil => exact List.all_eq_true.mpr fun _ _ => rfl
  | cons b second ih =>
    obtain ⟨next, turns⟩ := (Bool.and_eq_true _ _).mp turns
    obtain ⟨follows, ascending'⟩ := List.pairwise_cons.mp ascending'
    have parts := List.takeWhile_append_dropWhile (p := (·.2 < b.1)) (l := first)
    refine List.all_eq_true.mpr fun a among => List.all_eq_true.mpr fun other amongOther => ?_
    rw [← parts, List.mem_append] at among
    rcases among with before | among
    -- what lies before `b` lies before all that follow `b`, and is not compared with them again
    · have behind : a.2 < b.1 := by simpa using List.mem_takeWhile_imp before
      have later : b.1 ≤ other.1 := by
        rcases List.mem_cons.mp amongOther with rfl | amongOther
        · exact le_rfl
        · exact follows other amongOther
      simp only [Bool.or_eq_true, decide_eq_true_eq]
      exact .inl (by omega)
    -- the first range of what is left lies after `b`, and so do those that follow it
    · have ascending := ascending.sublist (List.dropWhile_sublist (·.2 < b.1))
      rcases List.mem_cons.mp amongOther with rfl | amongOther
      · have after : other.2 < a.1 := by
          cases isAhead : first.dropWhile (·.2 < other.1) with
          | nil => simp [isAhead] at among
          | cons head tail =>
            simp only [isAhead, List.head?_cons, Option.all_some, decide_eq_true_eq] at next
            rw [isAhead, List.pairwise_cons] at ascending
            rw [isAhead, List.mem_cons] at among
            rcases among with rfl | among
            · exact next
            · exact next.trans_le (ascending.1 a among)
        simp only [Bool.or_eq_true, decide_eq_true_eq]
        exact .inr after
      · have apart := ih ascending ascending' turns
        exact List.all_eq_true.mp (List.all_eq_true.mp apart a among) other amongOther

/-- The decimal digits of all scripts, ten to a range. -/
def decimalRanges : List (Nat × Nat) := decimalZeros.map fun first => (first, first + 9)

theorem exists_range_of_isDecimal (decimal : isDecimal c) :
    ∃ range ∈ decimalRanges, range.1 ≤ c.toNat ∧ c.toNat ≤ range.2 := by
  rw [isDecimal, decimalValue?, Option.isSome_map, List.find?_isSome] at decimal
  obtain ⟨first, among, inside⟩ := decimal
  simp only [Bool.and_eq_true, decide_eq_true_eq] at inside
  exact ⟨(first, first + 9), List.mem_map_of_mem among, inside⟩

/-! ### Words -/

/-- No word starts with a decimal digit of any script. -/
theorem not_isDecimal_of_isWordStart (start : isWordStart c) : isDecimal c = false := by
  rw [Bool.eq_false_iff]
  intro decimal
  rcases Bool.or_eq_true _ _ ▸ start with letter | underscore
  · have apart : areApart letterRanges decimalRanges :=
      areApart_of_takeTurns (by decide +kernel) (by decide +kernel) (by decide +kernel)
    exact false_of_areApart apart (exists_range_of_covers letter) (exists_range_of_isDecimal decimal)
  · rw [beq_iff_eq.mp underscore] at decimal
    revert decimal
    decide +kernel

/-- No word has a blank in it. -/
theorem not_isBlank_of_isWordChar (word : isWordChar c) : isBlank c = false := by
  rw [Bool.eq_false_iff]
  intro blank
  have isBlank := exists_range_of_covers blank
  simp only [isWordChar, isAlphanumeric, Bool.or_eq_true, beq_iff_eq] at word
  rcases word with ((letter | decimal) | numeral) | rfl
  · have apart : areApart letterRanges blankRanges :=
      areApart_of_takeTurns (by decide +kernel) (by decide +kernel) (by decide +kernel)
    exact false_of_areApart apart (exists_range_of_covers letter) isBlank
  · have apart : areApart decimalRanges blankRanges := by decide +kernel
    exact false_of_areApart apart (exists_range_of_isDecimal decimal) isBlank
  · have apart : areApart numeralRanges blankRanges := by decide +kernel
    exact false_of_areApart apart (exists_range_of_covers numeral) isBlank
  · revert blank
    decide +kernel

/-- The digits of number literals are decimal digits. -/
theorem isDecimal_of_isDigit (digit : isDigit c) : isDecimal c := by
  simp only [isDigit, Bool.and_eq_true, decide_eq_true_eq, Char.le_def] at digit
  rw [isDecimal, decimalValue?, Option.isSome_map, List.find?_isSome]
  refine ⟨0x30, List.mem_cons_self, ?_⟩
  simp only [Bool.and_eq_true, decide_eq_true_eq]
  exact ⟨digit.1, digit.2⟩

end LazyConfig.Text
