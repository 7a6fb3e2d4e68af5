import LazyConfig.Proofs.Relocation.View

/-!
# Operators in relocated stores

An operator has the relocated outcome on relocated operands. Operators compare values and look into
views, but nothing that they do depends on the numbers of documents and views.
-/

namespace LazyConfig

open Eval
open Evaluation

namespace Evaluation.Outcome

def relocate (r : Relocation) : Outcome → Outcome
  | value v => value (v.relocate r)
  | inapplicable => inapplicable
  | refused reason => refused reason

def Within (scope : Scope) : Outcome → Prop
  | value v => v.Within scope
  | _ => True

theorem Within.mono {scope wider : Scope} (le : scope ≤ wider) :
    ∀ {outcome : Outcome}, outcome.Within scope → outcome.Within wider
  | value v, within => Value.Within.mono le (show v.Within scope from within)
  | inapplicable, _ | refused _, _ => trivial

end Evaluation.Outcome

def Cargo.outcome (r : Relocation) : Cargo Outcome :=
  ⟨Outcome.relocate r, Outcome.Within, fun le => Outcome.Within.mono le⟩

namespace Evaluation

variable {r : Relocation} {scope : Scope}

/-! ### Outcomes -/

theorem alike_hasValue {v : Value} (within : v.Within scope) :
    Alike r (.outcome r) scope (pure (.value v)) (pure (.value (v.relocate r))) :=
  @Alike.pure _ _ _ (.outcome r) (.value v) within

theorem alike_ofBool (holds : Bool) :
    Alike r (.outcome r) scope (pure (.ofBool holds)) (pure (.ofBool holds)) :=
  @alike_hasValue r scope (.bool holds) trivial

theorem alike_inapplicable :
    Alike r (.outcome r) scope (pure .inapplicable) (pure .inapplicable) :=
  @Alike.pure _ _ _ (.outcome r) .inapplicable trivial

theorem alike_refused (reason : Reason) :
    Alike r (.outcome r) scope (pure (.refused reason)) (pure (.refused reason)) :=
  @Alike.pure _ _ _ (.outcome r) (.refused reason) trivial

theorem negate_relocate (outcome : Outcome) :
    (outcome.relocate r).negate = outcome.negate.relocate r := by
  cases outcome with
  | value v => cases v <;> simp only [Outcome.relocate, Outcome.negate, Value.relocate]
  | _ => rfl

theorem within_negate {outcome : Outcome} (within : outcome.Within scope) :
    outcome.negate.Within scope := by
  cases outcome with
  | value v =>
    cases v with
    | bool b => trivial
    | _ => exact within
  | _ => trivial

theorem alike_negated {e other : Eval Outcome} (alike : Alike r (.outcome r) scope e other) :
    Alike r (.outcome r) scope (do return (← e).negate) (do return (← other).negate) := by
  refine alike.bind fun {wider} _ outcome within => ?_
  have negated := @Alike.pure _ r wider (.outcome r) outcome.negate (within_negate within)
  rwa [show (Cargo.outcome r).relocate outcome.negate = (outcome.relocate r).negate from
    (negate_relocate outcome).symm] at negated

/-! ### Numbers -/

theorem alike_onNumbers (f : Number → Number → Except Arithmetic.Fault Number)
    (left right : Value) :
    Alike r (.outcome r) scope (onNumbers f left right)
      (onNumbers f (left.relocate r) (right.relocate r)) := by
  cases left with
  | number a mark =>
    cases right with
    | number b mark =>
      simp only [Value.relocate, onNumbers]
      cases f a b with
      | ok n => exact (Alike.newNumber n).bind fun _ _ within => alike_hasValue within
      | error fault => exact alike_refused _
    | _ =>
      simp only [Value.relocate, onNumbers]
      exact alike_inapplicable
  | _ =>
    simp only [Value.relocate, onNumbers]
    exact alike_inapplicable

theorem alike_onInts (f : Int → Int → Except Arithmetic.Fault Int) (left right : Value) :
    Alike r (.outcome r) scope (onInts f left right)
      (onInts f (left.relocate r) (right.relocate r)) := by
  cases left with
  | number a mark =>
    cases right with
    | number b other =>
      simp only [Value.relocate]
      unfold onInts
      split
      · split
        · exact (Alike.newNumber _).bind fun _ _ within => alike_hasValue within
        · exact alike_refused _
      · exact alike_inapplicable
    | _ => cases a <;> simp only [Value.relocate, onInts] <;> exact alike_inapplicable
  | _ =>
    simp only [Value.relocate, onInts]
    exact alike_inapplicable

/-! ### Containers -/

section

variable {m : Machine} (asks : m.AsksAlike r)

include asks

variable {owner : DocumentId}

theorem alike_mergeViews {left right : ViewId} (inside : owner < scope.documents)
    (leftInside : left < scope.views) (rightInside : right < scope.views) :
    Alike r (.outcome r) scope (mergeViews m owner left right)
      (mergeViews m (r.document owner) (r.view left) (r.view right)) := by
  refine (alike_asDict asks leftInside).bind fun {wide} le base baseWithin => ?_
  refine (alike_asDict asks ((Cargo.view r).mono le rightInside)).bind
    fun {wider} more update updateWithin => ?_
  have there := (Cargo.document r).mono (le.trans more) inside
  exact (alike_mergedView there (baseWithin.mono more) updateWithin).bind
    fun _ _ within => alike_hasValue within

omit asks in
/-- Joining texts keeps the one that nothing is added to. -/
private theorem add_text (owner : DocumentId) (s t : String) (mark other : Mark) :
    add m owner (.text s mark) (.text t other) =
      if s = "" then pure (.value (.text t other))
      else if t = "" then pure (.value (.text s mark))
      else do return .value (← joinedText (s ++ t)) := by
  by_cases left : s = ""
  · subst left
    rfl
  by_cases right : t = ""
  · subst right
    rw [if_neg left, if_pos rfl]
    unfold add
    split <;> simp_all
  · rw [if_neg left, if_neg right]
    unfold add
    split
    case h_6 noTexts => exact (noTexts s mark t other rfl rfl).elim
    all_goals simp_all

theorem alike_add {left right : Value} (inside : owner < scope.documents)
    (leftWithin : left.Within scope) (rightWithin : right.Within scope) :
    Alike r (.outcome r) scope (add m owner left right)
      (add m (r.document owner) (left.relocate r) (right.relocate r)) := by
  have numbers := @alike_onNumbers r scope Number.add left right
  cases left with
  | mappingView a =>
    cases right with
    | mappingView b => exact alike_mergeViews asks inside leftWithin rightWithin
    | _ => simpa only [Value.relocate, add] using numbers
  | listView a =>
    cases right with
    | listView b =>
      refine (alike_elements asks leftWithin).bind fun {wide} le items itemsWithin => ?_
      refine (alike_elements asks ((Cargo.view r).mono le rightWithin)).bind
        fun {wider} more others othersWithin => ?_
      have all : ∀ v ∈ items ++ others, v.Within wider := fun v among =>
        (List.mem_append.mp among).elim (fun among => (itemsWithin v among).mono more)
          (othersWithin v)
      have viewed := alike_viewOfValues (r := r) ((Cargo.document r).mono (le.trans more) inside) all
      rw [show (Cargo.value r).list.relocate (items ++ others) =
        (Cargo.value r).list.relocate items ++ (Cargo.value r).list.relocate others from
          List.map_append] at viewed
      exact viewed.bind fun _ id present => @alike_hasValue _ _ (.listView id) present
    | _ => simpa only [Value.relocate, add] using numbers
  | text s mark =>
    cases right with
    | text t other =>
      simp only [Value.relocate, add_text]
      split
      · exact @alike_hasValue _ _ (.text t other) trivial
      split
      · exact @alike_hasValue _ _ (.text s mark) trivial
      · exact (Alike.joinedText _).bind fun _ _ within => alike_hasValue within
    | _ => simpa only [Value.relocate, add] using numbers
  | _ => simpa only [Value.relocate, add] using numbers

theorem alike_withoutKeys {left right : ViewId} (inside : owner < scope.documents)
    (leftInside : left < scope.views) (rightInside : right < scope.views) :
    Alike r (.outcome r) scope (withoutKeys m owner left right)
      (withoutKeys m (r.document owner) (r.view left) (r.view right)) := by
  refine (alike_asDict asks leftInside).bind fun {wide} le v within => ?_
  cases v with
  | dict items mark =>
    rw [show (Cargo.value r).relocate (.dict items mark) =
      .dict ((Cargo.value r).entries.relocate items) mark from Value.relocate_dict r items mark]
    refine (alike_keys ((Cargo.view r).mono le rightInside)).bind fun {wider} more others _ => ?_
    have itemsWithin := Value.within_dict.mp (show (Value.dict items mark).Within wide from within)
    have kept : (Value.dict (items.filter fun entry => !others.contains entry.1) mark).Within wider :=
      Value.within_dict.mpr fun entry among =>
        ⟨trivial, (itemsWithin entry (List.mem_filter.mp among).1).2.mono more⟩
    have viewed := alike_toView (r := r) ((Cargo.document r).mono (le.trans more) inside) kept
    have same : (Cargo.value r).entries.relocate
        (items.filter fun entry => !others.contains entry.1) =
          ((Cargo.value r).entries.relocate items).filter fun entry => !others.contains entry.1 := by
      change _ = List.filter _ (List.map _ items)
      rw [List.filter_map]
      rfl
    rw [Value.relocate_dict, same] at viewed
    exact viewed.bind fun _ _ within => alike_hasValue within
  | _ =>
    simp only [Cargo.value, Value.relocate]
    exact alike_inapplicable

theorem alike_subtract {left right : Value} (inside : owner < scope.documents)
    (leftWithin : left.Within scope) (rightWithin : right.Within scope) :
    Alike r (.outcome r) scope (subtract m owner left right)
      (subtract m (r.document owner) (left.relocate r) (right.relocate r)) := by
  have numbers := @alike_onNumbers r scope Number.sub left right
  cases left with
  | mappingView a =>
    cases right with
    | mappingView b => exact alike_withoutKeys asks inside leftWithin rightWithin
    | _ => simpa only [Value.relocate, subtract] using numbers
  | _ => simpa only [Value.relocate, subtract] using numbers

theorem alike_bitOr {left right : Value} (inside : owner < scope.documents)
    (leftWithin : left.Within scope) (rightWithin : right.Within scope) :
    Alike r (.outcome r) scope (bitOr m owner left right)
      (bitOr m (r.document owner) (left.relocate r) (right.relocate r)) := by
  have numbers := @alike_onInts r scope (fun a b => .ok (Bitwise.or a b)) left right
  cases left with
  | mappingView a =>
    cases right with
    | mappingView b => exact alike_mergeViews asks inside leftWithin rightWithin
    | _ => simpa only [Value.relocate, bitOr, onBits] using numbers
  | _ => simpa only [Value.relocate, bitOr, onBits] using numbers

/-! ### Comparisons -/

omit asks in
@[simp] theorem isBool_relocate (v : Value) : isBool (v.relocate r) = isBool v := by
  cases v <;> simp only [Value.relocate, isBool]

theorem alike_order (op : OrderOp) {left right : Value} (leftWithin : left.Within scope)
    (rightWithin : right.Within scope) :
    Alike r (.outcome r) scope (order m op left right)
      (order m op (left.relocate r) (right.relocate r)) := by
  unfold order
  rw [isBool_relocate, isBool_relocate]
  split
  · exact alike_inapplicable
  · refine (alike_materialize asks leftWithin).bind fun {wide} le a _ => ?_
    refine (alike_materialize asks (rightWithin.mono le)).bind fun {wider} _ b _ => ?_
    rw [show Value.order op ((Cargo.value r).relocate a) ((Cargo.value r).relocate b) =
      Value.order op a b from Value.order_relocate op a b]
    split
    · exact alike_ofBool _
    · exact alike_refused _

theorem alike_equal {left right : Value} (leftWithin : left.Within scope)
    (rightWithin : right.Within scope) :
    Alike r (.outcome r) scope (equal m left right)
      (equal m (left.relocate r) (right.relocate r)) := by
  refine (alike_materialize asks leftWithin).bind fun {wide} le a _ => ?_
  refine (alike_materialize asks (rightWithin.mono le)).bind fun {wider} _ b _ => ?_
  rw [show ((Cargo.value r).relocate a).equal ((Cargo.value r).relocate b) = a.equal b from
    Value.equal_relocate a b]
  exact alike_ofBool _

theorem alike_isIn {left right : Value} (leftWithin : left.Within scope)
    (rightWithin : right.Within scope) :
    Alike r (.outcome r) scope (isIn m left right)
      (isIn m (left.relocate r) (right.relocate r)) := by
  cases right with
  | listView id =>
    refine (alike_materialize asks leftWithin).bind fun {wide} le v _ => ?_
    refine (alike_asList asks ((Cargo.view r).mono le rightWithin)).bind fun {wider} _ whole _ => ?_
    cases whole with
    | list items mark =>
      simp only [Cargo.value, Value.relocate, Value.elementOf_relocate]
      exact alike_ofBool _
    | _ =>
      simp only [Cargo.value, Value.relocate]
      exact alike_inapplicable
  | mappingView id =>
    cases left with
    | text key mark => exact (alike_hasKey key rightWithin).bind fun _ holds _ => alike_ofBool holds
    | _ =>
      simp only [Value.relocate, isIn]
      exact alike_inapplicable
  | document id =>
    cases left with
    | text key mark =>
      refine (Alike.document rightWithin).bind fun {wider} le d within => ?_
      rw [Cargo.root_content]
      cases isRoot : d.root with
      | none => exact alike_ofBool false
      | some root =>
        exact (alike_hasKey key (within.root root isRoot)).bind fun _ holds _ => alike_ofBool holds
    | _ =>
      simp only [Value.relocate, isIn]
      exact alike_inapplicable
  | text whole mark =>
    cases left with
    | text part other => exact alike_ofBool _
    | _ =>
      simp only [Value.relocate, isIn]
      exact alike_inapplicable
  | _ =>
    simp only [Value.relocate, isIn]
    exact alike_inapplicable

omit asks in
theorem identical_relocate (left right : Value) :
    identical (left.relocate r) (right.relocate r) = identical left right := by
  have container (v : Value) : isContainer (v.relocate r) = isContainer v := by
    cases v <;> simp only [Value.relocate, isContainer]
  simp only [identical, container, Value.same_relocate, Value.typeName_relocate,
    Value.equal_relocate]

/-! ### Applying operators -/

theorem alike_apply (op : Syntax.InfixOp) {left right : Value} (inside : owner < scope.documents)
    (leftWithin : left.Within scope) (rightWithin : right.Within scope) :
    Alike r (.outcome r) scope (apply m owner op left right)
      (apply m (r.document owner) op (left.relocate r) (right.relocate r)) := by
  cases op with
  | add => exact alike_add asks inside leftWithin rightWithin
  | subtract => exact alike_subtract asks inside leftWithin rightWithin
  | bitOr => exact alike_bitOr asks inside leftWithin rightWithin
  | multiply | divide | power => exact alike_onNumbers _ left right
  | intDivide | modulo | shiftLeft | shiftRight => exact alike_onInts _ left right
  | bitAnd => exact alike_onInts (fun a b => .ok (Bitwise.and a b)) left right
  | bitXor => exact alike_onInts (fun a b => .ok (Bitwise.xor a b)) left right
  | less | lessEqual | greater | greaterEqual => exact alike_order asks _ leftWithin rightWithin
  | equal => exact alike_equal asks leftWithin rightWithin
  | unequal | altUnequal => exact alike_negated (alike_equal asks leftWithin rightWithin)
  | isIn => exact alike_isIn asks leftWithin rightWithin
  | notIn => exact alike_negated (alike_isIn asks leftWithin rightWithin)
  | is =>
    unfold apply
    rw [identical_relocate]
    exact alike_ofBool _
  | isNot =>
    unfold apply
    rw [identical_relocate]
    exact alike_ofBool _
  | and | or => exact alike_inapplicable

omit asks in
theorem alike_refuse (failure : Failure) :
    Alike r (.outcome r) scope (refuse failure) (refuse failure) := by
  unfold refuse
  split
  · split
    · exact alike_refused _
    · exact .throw _
  · exact .throw _

theorem alike_outcome (op : Syntax.InfixOp) {left right : Value} (inside : owner < scope.documents)
    (leftWithin : left.Within scope) (rightWithin : right.Within scope) :
    Alike r (.outcome r) scope (outcome m owner op left right)
      (outcome m (r.document owner) op (left.relocate r) (right.relocate r)) := by
  rw [outcome_eq, outcome_eq]
  exact (alike_apply asks op inside leftWithin rightWithin).tryCatch fun _ => alike_refuse

theorem alike_applyInfix (op : Syntax.InfixOp) {left right : Value} (location : Location)
    (inside : owner < scope.documents) (leftWithin : left.Within scope)
    (rightWithin : right.Within scope) :
    Alike r (.value r) scope (applyInfix m owner op left right location)
      (applyInfix m (r.document owner) op (left.relocate r) (right.relocate r) location) := by
  refine (alike_describe leftWithin).bind fun {wide} le a _ => ?_
  refine (alike_describe (rightWithin.mono le)).bind fun {wider} more b _ => ?_
  have on := le.trans more
  refine (alike_outcome asks op ((Cargo.document r).mono on inside) (leftWithin.mono on)
    (rightWithin.mono on)).bind fun {widest} most result within => ?_
  cases result with
  | value v => exact .value within
  | inapplicable => exact .fail _ _
  | refused reason => exact .fail _ _

omit asks in
theorem alike_applyPrefix (op : Syntax.PrefixOp) {operand : Value} (location : Location)
    (within : operand.Within scope) :
    Alike r (.value r) scope (applyPrefix op operand location)
      (applyPrefix op (operand.relocate r) location) := by
  have refused : Alike r (.value r) scope
      (do fail (.operand op (← describe operand)) location)
      (do fail (.operand op (← describe (operand.relocate r))) location) :=
    (alike_describe within).bind fun _ _ _ => .fail _ _
  cases operand with
  | number n mark =>
    cases op with
    | minus => exact .newNumber _
    | plus => exact @Alike.value r scope (.number n mark) trivial
    | complement =>
      cases n with
      | int n => exact .newNumber _
      | _ => exact refused
    | _ => exact refused
  | bool b =>
    cases op with
    | not => exact @Alike.value r scope (.bool (!b)) trivial
    | _ => exact refused
  | _ =>
    simp only [Value.relocate] at refused ⊢
    cases op <;> exact refused

end

end Evaluation

end LazyConfig
