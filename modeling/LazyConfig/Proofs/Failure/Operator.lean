import LazyConfig.Proofs.Failure.View

/-!
# Contained operators

Operators on local values are contained, and so are their values local. A number that is too long, or
anything else that an operator meets inside its operands, is an error of the program.
-/

namespace LazyConfig.Evaluation

open Eval
open Syntax (InfixOp PrefixOp)

/-- The value of an operator, if it has one, is local. -/
def Outcome.IsLocal : Outcome → Prop
  | .value v => v.IsLocal
  | _ => True

theorem Outcome.isLocal_negate {result : Outcome} (isLocal : result.IsLocal) :
    result.negate.IsLocal := by
  unfold Outcome.negate
  split
  · trivial
  · exact isLocal

variable {headed : Bool} {m : Machine} {left right : Value}

theorem contained_onNumbers (f : Number → Number → Except Arithmetic.Fault Number) :
    Contained headed Outcome.IsLocal (onNumbers f left right) := by
  unfold onNumbers
  split
  · split
    · exact (Contained.newNumber _).bind fun v outside => .pure outside.isLocal
    · exact .pure trivial
  · exact .pure trivial

theorem contained_onInts (f : Int → Int → Except Arithmetic.Fault Int) :
    Contained headed Outcome.IsLocal (onInts f left right) := by
  unfold onInts
  split
  · split
    · exact (Contained.newNumber _).bind fun v outside => .pure outside.isLocal
    · exact .pure trivial
  · exact .pure trivial

theorem contained_applyPrefix (op : PrefixOp) {operand : Value} (isOperand : operand.IsLocal)
    (location : Location) : Contained headed Value.IsLocal (applyPrefix op operand location) := by
  unfold applyPrefix
  split
  · exact (Contained.newNumber _).mono fun v outside => outside.isLocal
  · exact .pure isOperand
  · exact (Contained.newNumber _).mono fun v outside => outside.isLocal
  · exact .pure trivial
  · exact (Contained.describe operand).bind fun _ _ => .fail _ _

section

variable (answers : m.IsLocal headed)

include answers

theorem contained_mergeViews (a b : ViewId) :
    Contained headed Outcome.IsLocal (mergeViews m 0 a b) := by
  refine (contained_asDict answers a).bind fun base isBase => ?_
  refine (contained_asDict answers b).bind fun update isUpdate => ?_
  exact (contained_mergedView isBase isUpdate).bind fun v isValue => .pure isValue

theorem contained_add (isLeft : left.IsLocal) (isRight : right.IsLocal) :
    Contained headed Outcome.IsLocal (add m 0 left right) := by
  unfold add
  split
  · exact contained_mergeViews answers _ _
  · refine (contained_elements answers _).bind fun items areItems => ?_
    refine (contained_elements answers _).bind fun others areOthers => ?_
    have isView : (View.list 0 ((items ++ others).map .value)).IsLocal headed := by
      refine ⟨rfl, fun slot among => ?_⟩
      obtain ⟨v, isItem, rfl⟩ := List.mem_map.mp among
      rcases List.mem_append.mp isItem with isItem | isOther
      · exact areItems v isItem
      · exact areOthers v isOther
    exact (Contained.addView isView).bind fun id _ => .pure trivial
  · exact .pure isRight
  · exact .pure isLeft
  · exact (Contained.joinedText _).bind fun v outside => .pure outside.isLocal
  · exact contained_onNumbers _

theorem contained_withoutKeys (a b : ViewId) :
    Contained headed Outcome.IsLocal (withoutKeys m 0 a b) := by
  refine (contained_asDict answers a).bind fun v outside => ?_
  split
  · rename_i items mark
    refine (contained_keys b).bind fun others _ => ?_
    have remains : (Value.dict (items.filter fun entry => !others.contains entry.1) mark).IsOutside := by
      have all := (Value.entriesWithin_iff _).mp outside
      exact (Value.entriesWithin_iff _).mpr fun entry among => all entry (List.mem_of_mem_filter among)
    exact (contained_toView remains).bind fun v isValue => .pure isValue
  · exact .pure trivial

theorem contained_subtract : Contained headed Outcome.IsLocal (subtract m 0 left right) := by
  unfold subtract
  split
  · exact contained_withoutKeys answers _ _
  · exact contained_onNumbers _

theorem contained_bitOr : Contained headed Outcome.IsLocal (bitOr m 0 left right) := by
  unfold bitOr
  split
  · exact contained_mergeViews answers _ _
  · exact contained_onInts _

theorem contained_order (op : OrderOp) (isLeft : left.IsLocal) (isRight : right.IsLocal) :
    Contained headed Outcome.IsLocal (order m op left right) := by
  unfold order
  split
  · exact .pure trivial
  · refine (answers.materialize left isLeft).bind fun a _ => ?_
    refine (answers.materialize right isRight).bind fun b _ => ?_
    split <;> exact .pure trivial

theorem contained_equal (isLeft : left.IsLocal) (isRight : right.IsLocal) :
    Contained headed Outcome.IsLocal (equal m left right) :=
  (answers.materialize left isLeft).bind fun _ _ =>
    (answers.materialize right isRight).bind fun _ _ => .pure trivial

theorem contained_isIn (isLeft : left.IsLocal) (isRight : right.IsLocal) :
    Contained headed Outcome.IsLocal (isIn m left right) := by
  unfold isIn
  split
  · refine (answers.materialize left isLeft).bind fun v _ => ?_
    refine (contained_asList answers _).bind fun items _ => ?_
    split <;> exact .pure trivial
  · exact (contained_hasKey _ _).bind fun _ _ => .pure trivial
  · exact absurd isRight (Value.not_isLocal_document _)
  · exact .pure trivial
  · exact .pure trivial

theorem contained_apply (op : InfixOp) (isLeft : left.IsLocal) (isRight : right.IsLocal) :
    Contained headed Outcome.IsLocal (apply m 0 op left right) := by
  cases op with
  | add => exact contained_add answers isLeft isRight
  | subtract => exact contained_subtract answers
  | bitOr => exact contained_bitOr answers
  | multiply | divide | power => exact contained_onNumbers _
  | intDivide | modulo | shiftLeft | shiftRight | bitAnd | bitXor => exact contained_onInts _
  | less | lessEqual | greater | greaterEqual => exact contained_order answers _ isLeft isRight
  | equal => exact contained_equal answers isLeft isRight
  | unequal | altUnequal =>
    exact (contained_equal answers isLeft isRight).bind fun result isLocal =>
      .pure (Outcome.isLocal_negate isLocal)
  | isIn => exact contained_isIn answers isLeft isRight
  | notIn =>
    exact (contained_isIn answers isLeft isRight).bind fun result isLocal =>
      .pure (Outcome.isLocal_negate isLocal)
  | is | isNot | and | or => exact .pure trivial

theorem contained_outcome (op : InfixOp) (isLeft : left.IsLocal) (isRight : right.IsLocal) :
    Contained headed Outcome.IsLocal (outcome m 0 op left right) := by
  rw [outcome_eq]
  refine (contained_apply answers op isLeft isRight).tryCatch fun failure acceptable => ?_
  unfold refuse
  split
  · split
    · exact .pure trivial
    · exact .failHost acceptable
  · exact fun _ _ _ isLocal => ⟨isLocal, acceptable⟩

theorem contained_applyInfix (op : InfixOp) (isLeft : left.IsLocal) (isRight : right.IsLocal)
    (location : Location) :
    Contained headed Value.IsLocal (applyInfix m 0 op left right location) := by
  refine (Contained.describe left).bind fun a _ => (Contained.describe right).bind fun b _ => ?_
  refine (contained_outcome answers op isLeft isRight).bind fun result isLocal => ?_
  cases result with
  | value v => exact .pure isLocal
  | inapplicable => exact .fail _ _
  | refused reason => exact .fail _ _

end

end LazyConfig.Evaluation
