import LazyConfig.Proofs.Failure.Document
import LazyConfig.Proofs.Number.Exact
import LazyConfig.Proofs.Resolution.Spine

/-!
# Operators on integers

Operands are shown in the message of an operator before it is applied, so that an operand of too
many digits keeps it from having a value. On all other integers the operators that stay within the
integers are exact, and only a division by zero is refused.
-/

namespace LazyConfig.Operator

open Eval
open Evaluation
open Resolution (emptyWorld opened)
open Syntax (InfixOp)

/-- An integer that messages can show. -/
def Showable (n : Int) : Prop := n.natAbs < Nat.pow 10 Decimal.digitLimit

instance : DecidablePred Showable := fun n =>
  inferInstanceAs (Decidable (n.natAbs < Nat.pow 10 Decimal.digitLimit))

/-- The value of an integer as an object. -/
def integer (n : Int) (mark : Mark) : Value := .number (.int n) mark

section

variable {environment : Environment} {s : Store} {m : Machine} {owner : DocumentId} {op : InfixOp}
  {a b : Int} {first second : Mark}

/-! ### Showing operands -/

theorem run_describe_integer (n : Int) (mark : Mark) :
    (describe (integer n mark)).run environment s =
      (shown (Decimal.intText? n)).run environment s := by
  rw [describe, run_bind, run_get]
  simp only [integer, describeWith, scalarText, Number.text?]

theorem run_describe_showable (environment : Environment) (s : Store) {n : Int}
    (showable : Showable n) (mark : Mark) :
    ∃ text, (describe (integer n mark)).run environment s = (.ok text, s) := by
  have isText : Decimal.intText? n = some (toString n) := if_pos showable
  refine ⟨toString n, ?_⟩
  rw [run_describe_integer, isText]
  rfl

theorem run_describe_long {n : Int} (long : ¬ Showable n) (mark : Mark) :
    (describe (integer n mark)).run environment s = (.error (.host .tooManyDigits), s) := by
  have noText : Decimal.intText? n = none := if_neg long
  rw [run_describe_integer, noText]
  rfl

/-- An operator that has an outcome has it as its outcome within an evaluation, too. -/
theorem run_outcome_ok {left right : Value} {result : Outcome} {later : Store}
    (applied : (apply m owner op left right).run environment s = (.ok result, later)) :
    (outcome m owner op left right).run environment s = (.ok result, later) := by
  rw [outcome_eq, run_tryCatch, applied]

/-- What becomes of the outcome of an operator whose operands have been shown. -/
def answered (op : InfixOp) (left right : String) (location : Location) : Outcome → Eval Value
  | .value v => return v
  | .inapplicable => fail (.operands op left right none) location
  | .refused reason => fail (.operands op left right (some reason)) location

/-- The outcome of an operator on integers that can be shown is its result; their texts matter to
its errors only. -/
theorem run_applyInfix_showable {result : Outcome} {later : Store} (firstShowable : Showable a)
    (secondShowable : Showable b) (location : Location)
    (applied : (apply m owner op (integer a first) (integer b second)).run environment s =
      (.ok result, later)) :
    ∃ left right,
      (applyInfix m owner op (integer a first) (integer b second) location).run environment s =
        (answered op left right location result).run environment later := by
  obtain ⟨left, shownLeft⟩ := run_describe_showable environment s firstShowable first
  obtain ⟨right, shownRight⟩ := run_describe_showable environment s secondShowable second
  refine ⟨left, right, ?_⟩
  rw [applyInfix, run_bind, shownLeft]
  dsimp only
  rw [run_bind, shownRight]
  dsimp only
  rw [run_bind, run_outcome_ok applied]
  rfl

theorem run_applyInfix_long (long : ¬ (Showable a ∧ Showable b)) (op : InfixOp)
    (location : Location) :
    (applyInfix m owner op (integer a first) (integer b second) location).run environment s =
      (.error (.host .tooManyDigits), s) := by
  by_cases firstShowable : Showable a
  · have secondLong : ¬ Showable b := fun showable => long ⟨firstShowable, showable⟩
    obtain ⟨left, shownLeft⟩ := run_describe_showable environment s firstShowable first
    rw [applyInfix, run_bind, shownLeft]
    dsimp only
    rw [run_bind, run_describe_long secondLong]
  · rw [applyInfix, run_bind, run_describe_long firstShowable]

/-! ### Applying operators -/

/-- An exact operator gives the exact result. -/
theorem run_apply_exact (exact : op.isExact = true) (whole : op.divides = true → b ≠ 0) :
    ∃ n, op.Exact a b n ∧
      (apply m owner op (integer a first) (integer b second)).run environment s =
        (.ok (.value (integer n (.made s.serial))), s.fresh.2) := by
  cases op with
  | add => exact ⟨a + b, rfl, rfl⟩
  | subtract => exact ⟨a - b, rfl, rfl⟩
  | multiply => exact ⟨a * b, rfl, rfl⟩
  | intDivide =>
    have nonzero := whole rfl
    refine ⟨a.fdiv b, Number.fdiv_eq_floor nonzero, ?_⟩
    simp only [apply, integer, onInts, Number.intDiv, if_neg nonzero]
    rfl
  | modulo =>
    have nonzero := whole rfl
    refine ⟨a.fmod b, ?_, ?_⟩
    · rw [InfixOp.Exact, ← Number.fdiv_eq_floor nonzero, Int.fmod_def]
    · simp only [apply, integer, onInts, Number.modulo, if_neg nonzero]
      rfl
  | bitAnd =>
    refine ⟨Bitwise.and a b, fun place => ?_, rfl⟩
    rw [Bitwise.and_eq_land, Int.testBit_land]
  | bitOr =>
    refine ⟨Bitwise.or a b, fun place => ?_, rfl⟩
    rw [Bitwise.or_eq_lor, Int.testBit_lor]
  | bitXor =>
    refine ⟨Bitwise.xor a b, fun place => ?_, rfl⟩
    rw [Bitwise.xor_eq_xor, Int.testBit_lxor]
  | _ => cases exact

theorem run_apply_zero (division : op.divides = true) :
    (apply m owner op (integer a first) (integer 0 second)).run environment s =
      (.ok (.refused (.arithmetic op.zeroFault)), s) := by
  cases op with
  | intDivide | modulo => rfl
  | _ => cases division

end

/-! ### Expressions -/

variable {environment : Environment} {s middle last : Store} {m : Machine} {id : DocumentId}
  {op : InfixOp} {left right : Node} {a b : Int} {first second : Mark}

/-- An expression evaluates its operands, the left one first, and then applies its operator. -/
theorem run_binary (isStrict : op ≠ .and ∧ op ≠ .or)
    (leftValue : (m.evaluate id left).run environment s = (.ok (integer a first), middle))
    (rightValue : (m.evaluate id right).run environment middle = (.ok (integer b second), last)) :
    (treeValue m id (.binary op left right)).run environment s =
      (applyInfix m id op (integer a first) (integer b second) left.start).run environment
        last := by
  rw [treeValue]
  cases op with
  | and => exact absurd rfl isStrict.1
  | or => exact absurd rfl isStrict.2
  | _ =>
    rw [infixValue, run_bind, leftValue]
    · dsimp only
      rw [run_bind, rightValue]
    all_goals simp

theorem isStrict_of_isExact (exact : op.isExact = true) : op ≠ .and ∧ op ≠ .or := by
  constructor <;> rintro rfl <;> cases exact

/-- Whatever the operands of an exact operator are, as long as they evaluate to integers: it has the
exact result as its value, or refuses to divide by zero with an error of the document, unless one of
the integers has too many digits to be shown. -/
theorem integer_operator_exact (exact : op.isExact = true)
    (leftValue : (m.evaluate id left).run environment s = (.ok (integer a first), middle))
    (rightValue : (m.evaluate id right).run environment middle = (.ok (integer b second), last)) :
    let result := (treeValue m id (.binary op left right)).run environment s
    (Showable a → Showable b → ¬ (op.divides = true ∧ b = 0) →
      ∃ n, op.Exact a b n ∧ result = (.ok (integer n (.made last.serial)), last.fresh.2)) ∧
    (Showable a → op.divides = true → b = 0 →
      ∃ shownLeft shownRight, result =
        (.error (.error ⟨.operands op shownLeft shownRight (some (.arithmetic op.zeroFault)),
          some left.start⟩), last)) ∧
    (¬ (Showable a ∧ Showable b) → result = (.error (.host .tooManyDigits), last)) := by
  dsimp only
  rw [run_binary (isStrict_of_isExact exact) leftValue rightValue]
  refine ⟨?_, ?_, fun long => run_applyInfix_long long op left.start⟩
  · intro firstShowable secondShowable whole
    obtain ⟨n, isExact, applied⟩ : ∃ n, op.Exact a b n ∧
        (apply m id op (integer a first) (integer b second)).run environment last =
          (.ok (.value (integer n (.made last.serial))), last.fresh.2) :=
      run_apply_exact exact fun division zero => whole ⟨division, zero⟩
    obtain ⟨_, _, ran⟩ := run_applyInfix_showable firstShowable secondShowable left.start applied
    exact ⟨n, isExact, ran⟩
  · rintro firstShowable division rfl
    have zeroShowable : Showable 0 := by decide +kernel
    have applied : (apply m id op (integer a first) (integer 0 second)).run environment last =
        (.ok (.refused (.arithmetic op.zeroFault)), last) := run_apply_zero division
    exact run_applyInfix_showable firstShowable zeroShowable left.start applied

/-- A leaf with an integer. -/
def integerLeaf (n : Int) : Node :=
  .leaf { kind := .integer, text := toString n, value := .int n }

theorem run_evaluate_integerLeaf (n : Int) :
    ((⟨answerWithin 1⟩ : Machine).evaluate 0 (integerLeaf n)).run emptyWorld {} =
      (.ok (integer n (.written 0 ⟨1, 1⟩)), {}) := rfl

theorem integer_operator_exact_quotient :
    ∃ n, InfixOp.intDivide.Exact (-7) 2 n ∧
      (treeValue ⟨answerWithin 1⟩ 0 (.binary .intDivide (integerLeaf (-7)) (integerLeaf 2))).run
        emptyWorld {} = (.ok (integer n (.made 0)), ⟨#[], #[], 1⟩) :=
  (integer_operator_exact (show InfixOp.intDivide.isExact from rfl) (run_evaluate_integerLeaf (-7))
    (run_evaluate_integerLeaf 2)).1 (by decide +kernel) (by decide +kernel) (by simp)

/-- An integer of many digits, and a difference that would be zero. -/
def longText : Text.Decoded := ⟨"n: 1 << 20000\nd: $\x7bn\x7d - $\x7bn\x7d".toList, none⟩

def longStore : Store := ((opened false longText none).run emptyWorld {}).2

/-- Integers can be too long to be subtracted. -/
theorem long_difference_faults :
    Resolution.integer? ((Document.get 0 "n").run emptyWorld longStore).1 = some (1 <<< 20000) ∧
      Failure.fault? ((Document.get 0 "d").run emptyWorld longStore).1 = some .tooManyDigits := by
  decide +kernel

end LazyConfig.Operator
