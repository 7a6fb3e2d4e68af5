import LazyConfig.Proofs.Number.Power
import LazyConfig.Proofs.Operator.Integer

/-!
# Powers of integers

The power of an integer to a natural exponent is exact as long as it is short. A longer one is exact
or refused, unless the exponent loses its last digit on the way through binary64 numbers.
-/

namespace LazyConfig.Operator

open Eval
open Evaluation
open Resolution (emptyWorld opened)

section

variable {environment : Environment} {s : Store} {m : Machine} {owner : DocumentId} {a : Int}
  {b : Nat} {first second : Mark}

theorem run_apply_power {n : Int} (isPower : Number.intPower a b = .ok n) :
    (apply m owner .power (integer a first) (integer b second)).run environment s =
      (.ok (.value (integer n (.made s.serial))), s.fresh.2) := by
  have power : Number.power (.int a) (.int b) = .ok (.int n) := by
    simp only [Number.power, Number.lift, isPower]
    rfl
  simp only [apply, Evaluation.power, integer, onNumbers, power]
  rfl

theorem run_apply_power_refused {fault : Arithmetic.Fault}
    (isRefused : Number.intPower a b = .error fault) :
    (apply m owner .power (integer a first) (integer b second)).run environment s =
      (.ok (.refused (.arithmetic fault)), s) := by
  have power : Number.power (.int a) (.int b) = .error fault := by
    simp only [Number.power, Number.lift, isRefused]
    rfl
  simp only [apply, Evaluation.power, integer, onNumbers, power]
  rfl

end

variable {environment : Environment} {s middle last : Store} {m : Machine} {id : DocumentId}
  {left right : Node} {a : Int} {b : Nat} {first second : Mark}

/-- The error of an expression whose power is refused. -/
def Refused (left : Node) (failure : Failure) : Prop :=
  ∃ shownLeft shownRight fault, failure =
    .error ⟨.operands .power shownLeft shownRight (some (.arithmetic fault)), some left.start⟩

theorem run_binary_power (leftValue : (m.evaluate id left).run environment s =
      (.ok (integer a first), middle))
    (rightValue : (m.evaluate id right).run environment middle = (.ok (integer b second), last))
    (firstShowable : Showable a) (secondShowable : Showable b) :
    (∀ n, Number.intPower a b = .ok n →
      (treeValue m id (.binary .power left right)).run environment s =
        (.ok (integer n (.made last.serial)), last.fresh.2)) ∧
    (∀ fault, Number.intPower a b = .error fault → ∃ failure, Refused left failure ∧
      (treeValue m id (.binary .power left right)).run environment s = (.error failure, last)) := by
  rw [run_binary (by decide) leftValue rightValue]
  constructor
  · intro n isPower
    have applied : (apply m id .power (integer a first) (integer b second)).run environment last =
        (.ok (.value (integer n (.made last.serial))), last.fresh.2) := run_apply_power isPower
    obtain ⟨_, _, ran⟩ := run_applyInfix_showable firstShowable secondShowable left.start applied
    exact ran
  · intro fault isRefused
    have applied : (apply m id .power (integer a first) (integer b second)).run environment last =
        (.ok (.refused (.arithmetic fault)), last) := run_apply_power_refused isRefused
    obtain ⟨shownLeft, shownRight, ran⟩ :=
      run_applyInfix_showable firstShowable secondShowable left.start applied
    exact ⟨_, ⟨shownLeft, shownRight, fault, rfl⟩, ran⟩

/-- A power is exact if the digits of its base times its exponent are at most 4096. Beyond that it
is exact or refused, and only an odd power of -1 can be neither, if its exponent has more digits
than a binary64 number keeps. -/
theorem integer_power_exact_or_refused
    (leftValue : (m.evaluate id left).run environment s = (.ok (integer a first), middle))
    (rightValue : (m.evaluate id right).run environment middle = (.ok (integer b second), last))
    (firstShowable : Showable a) (secondShowable : Showable b) :
    let result := (treeValue m id (.binary .power left right)).run environment s
    let refused := ∃ failure, Refused left failure ∧ result = (.error failure, last)
    (a.natAbs.size * b ≤ 4096 →
      result = (.ok (integer (a ^ b) (.made last.serial)), last.fresh.2)) ∧
    (¬ (a = -1 ∧ b % 2 = 1 ∧ 2 ^ 53 < b) →
      result = (.ok (integer (a ^ b) (.made last.serial)), last.fresh.2) ∨ refused) ∧
    (a = -1 → b % 2 = 1 → 2 ^ 53 < b →
      result = (.ok (integer 1 (.made last.serial)), last.fresh.2) ∨ refused) := by
  dsimp only
  obtain ⟨ofPower, ofRefused⟩ := run_binary_power leftValue rightValue firstShowable secondShowable
  refine ⟨fun fits => ofPower _ (Number.intPower_exact fits), fun regular => ?_, ?_⟩
  · rcases Number.intPower_cases a b with isPower | ⟨-, fault, isRefused⟩ | lost
    · exact .inl (ofPower _ isPower)
    · exact .inr (ofRefused fault isRefused)
    · exact absurd lost regular
  · rintro rfl odd long
    rcases Number.intPower_negOne odd long with ⟨fault, isRefused⟩ | isOne
    · exact .inr (ofRefused fault isRefused)
    · exact .inl (ofPower _ isOne)

theorem integer_power_exact_or_refused_cube :
    (treeValue ⟨answerWithin 1⟩ 0 (.binary .power (integerLeaf (-3)) (integerLeaf 3))).run
      emptyWorld {} = (.ok (integer ((-3) ^ 3) (.made 0)), ⟨#[], #[], 1⟩) :=
  (integer_power_exact_or_refused (b := 3) (run_evaluate_integerLeaf (-3))
    (run_evaluate_integerLeaf 3) (by decide +kernel) (by decide +kernel)).1 (by decide)

/-- An odd power of -1, and a unit to an integer of many digits. -/
def oddText : Text.Decoded :=
  ⟨"long: (0 - 1) ** 9007199254740993\nall: 1 ** (1 << 20000)".toList, none⟩

def oddStore : Store := ((opened false oddText none).run emptyWorld {}).2

/-- The last digit of the exponent is lost beyond 53 of them, and an exponent can be too long. -/
theorem odd_power_positive :
    Resolution.integer? ((Document.get 0 "long").run emptyWorld oddStore).1 = some 1 ∧
      (-1 : Int) ^ 9007199254740993 = -1 ∧
      Failure.fault? ((Document.get 0 "all").run emptyWorld oddStore).1 = some .tooManyDigits := by
  refine ⟨by decide +kernel, ?_, by decide +kernel⟩
  exact Odd.neg_one_pow (by decide)

end LazyConfig.Operator
