import LazyConfig.Proofs.Failure.Operator
import LazyConfig.Proofs.Failure.Path

/-!
# Contained lookups

The answers to all requests that can be met in a local store are contained, by induction on the depth
at which they are answered, and so is every lookup of a key.
-/

namespace LazyConfig.Evaluation

open Eval
open Syntax (InfixOp)

variable {headed : Bool} {m : Machine}

/-! ### Trees -/

theorem contained_notEvaluable (node : Node) :
    Contained headed Value.IsLocal (notEvaluable node) :=
  (Contained.shown _).bind fun _ _ => .fail _ _

theorem contained_variableValue (name : String) (location : Location) :
    Contained headed Value.IsLocal (variableValue name location) := by
  refine Contained.settings.bind fun settings outside => ?_
  split
  · rename_i v found
    obtain ⟨entry, among, rfl⟩ := mem_of_lookup found
    exact .pure (outside entry among).isLocal
  · exact .fail _ _

theorem contained_tokenValue {token : Token} (noConversion : token.kind ≠ .backTick) :
    Contained headed Value.IsLocal (tokenValue m 0 token) := by
  have isLiteral : (Value.ofLiteral token.span token.value).IsLocal :=
    (Value.isOutside_ofLiteral token.span token.value).isLocal
  unfold tokenValue
  split
  iterate 7 exact .pure isLiteral
  · exact contained_variableValue _ _
  · rename_i isConversion
    exact absurd isConversion noConversion
  · exact contained_notEvaluable _

section

variable (answers : m.IsLocal headed)

include answers

theorem contained_truth {operand : Node} (alone : operand.standsAlone headed) :
    Contained headed (fun _ => True) (truth m 0 operand) := by
  refine (answers.evaluate operand alone).bind fun v _ => ?_
  split
  · exact .pure trivial
  · exact (Contained.describe _).bind fun _ _ => .fail _ _

theorem contained_infixValue (op : InfixOp) {left right : Node}
    (leftAlone : left.standsAlone headed) (rightAlone : right.standsAlone headed) :
    Contained headed Value.IsLocal (infixValue m 0 op left right) := by
  unfold infixValue
  split
  · refine (contained_truth answers leftAlone).bind fun holds _ => ?_
    split
    · exact (contained_truth answers rightAlone).bind fun _ _ => .pure trivial
    · exact .pure trivial
  · refine (contained_truth answers leftAlone).bind fun holds _ => ?_
    split
    · exact .pure trivial
    · exact (contained_truth answers rightAlone).bind fun _ _ => .pure trivial
  · refine (answers.evaluate left leftAlone).bind fun a isLeft => ?_
    refine (answers.evaluate right rightAlone).bind fun b isRight => ?_
    exact contained_applyInfix answers _ isLeft isRight _

theorem contained_treeValue {node : Node} (alone : node.standsAlone headed) :
    Contained headed Value.IsLocal (treeValue m 0 node) := by
  cases node with
  | leaf token => exact contained_tokenValue (Node.standsAlone_leaf alone)
  | unary op operand start =>
    obtain ⟨notInclusion, operandAlone⟩ := Node.standsAlone_unary alone
    cases op with
    | located => exact absurd rfl notInclusion
    | _ =>
      exact (answers.evaluate operand operandAlone).bind fun v isValue =>
        contained_applyPrefix _ isValue start
  | reference path sigil =>
    exact contained_reference answers (Node.standsAlone_reference alone) sigil
  | binary op left right =>
    obtain ⟨leftAlone, rightAlone⟩ := Node.standsAlone_binary alone
    exact contained_infixValue answers op leftAlone rightAlone
  | list elements span => exact (contained_listView alone).bind fun _ _ => .pure trivial
  | mapping entries span => exact (contained_mappingView alone).bind fun _ _ => .pure trivial
  | member | index | slice => exact contained_notEvaluable _

/-! ### Lookups -/

/-- Whether a key, if it is a path, stands alone as one. -/
def KeyAlone (headed : Bool) (key : String) : Prop :=
  ∀ path, Path.ofString key = .ok path → path.leadsAlone headed

theorem contained_followText {key : String} (alone : KeyAlone headed key) :
    Contained headed Value.IsLocal (followText m 0 key) := by
  have numbered : Contained headed (fun _ => True) fresh :=
    fun _ _ _ isLocal => ⟨isLocal.fresh, trivial⟩
  refine numbered.bind fun source _ => ?_
  split
  · rename_i path isPath
    apply contained_follow answers
    rw [Node.leadsAlone_inSource]
    exact alone path isPath
  · exact .fail _ _

omit answers in
theorem contained_withDefault (default? : Option Value) {body : Eval Value}
    (contained : Contained headed Value.IsLocal body) :
    Contained headed (fun found : Value × Bool => found.2 = true → found.1.IsLocal)
      (withDefault default? body) := by
  have found : Contained headed (fun found : Value × Bool => found.2 = true → found.1.IsLocal)
      (do return (← body, true)) :=
    contained.bind fun v isValue => .pure fun _ => isValue
  rw [withDefault_eq]
  cases default? with
  | none => exact found
  | some default =>
    -- a default can be any value, and is not looked into
    refine found.tryCatch fun failure acceptable => ?_
    unfold standIn
    split
    · split
      · exact .pure (by simp)
      · exact fun _ _ _ isLocal => ⟨isLocal, trivial⟩
    · exact fun _ _ _ isLocal => ⟨isLocal, acceptable⟩

theorem contained_found (root : ViewId) {key : String} (alone : KeyAlone headed key)
    (default? : Option Value) :
    Contained headed (fun found : Value × Bool => found.2 = true → found.1.IsLocal)
      (found m 0 root key default?) := by
  refine (contained_entryValue? answers root key).bind fun entry isEntry => ?_
  split
  · exact .pure fun _ => isEntry _ rfl
  · split
    · exact contained_withDefault default? (.fail _ _)
    · exact contained_withDefault default? (contained_followText answers alone)

theorem contained_lookupValue {key : String} (alone : KeyAlone headed key)
    (default? : Option Value) :
    Contained headed (fun _ => True) (lookupValue m 0 key default?) := by
  refine Contained.document.bind fun d _ => ?_
  split
  · exact .pure trivial
  · refine Contained.document.bind fun d _ => ?_
    split
    · exact .fail _ _
    · refine (contained_found answers _ alone default?).bind fun entry isLocal => ?_
      obtain ⟨v, isFound⟩ := entry
      dsimp only
      cases isFound with
      | false => exact .pure trivial
      | true =>
        refine (contained_unwrap answers (isLocal rfl)).bind fun w _ => ?_
        refine Contained.bind (Contained.modifyDocument ?_ ?_) fun _ _ => .pure trivial
        · exact fun _ loaded => loaded
        · exact fun _ pending => pending

end

/-! ### Answers -/

/-- Answers of every depth are contained. -/
theorem isLocal_answerWithin (headed : Bool) (depth : Nat) :
    Machine.IsLocal headed ⟨answerWithin depth⟩ := by
  induction depth with
  | zero =>
    -- without any depth the answer is that it does not suffice
    exact
      { asked := evolving_answerWithin 0
        evaluate := fun _ _ _ _ _ isLocal => ⟨isLocal, trivial⟩
        materialize := fun _ _ _ _ _ isLocal => ⟨isLocal, trivial⟩ }
  | succ depth ih =>
    exact
      { asked := evolving_answerWithin (depth + 1)
        evaluate := fun tree alone => contained_treeValue ih alone
        materialize := fun v isValue => contained_materializeStep ih isValue }

end LazyConfig.Evaluation
