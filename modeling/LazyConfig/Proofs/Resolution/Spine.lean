import LazyConfig.Proofs.Resolution.Document

/-!
# Operators in references

A reference follows whatever tree stands between its brackets. It is refused if the left spine of the
tree does not end in a word. Operators on the spine do not keep it from being followed: a prefix
operator counts for nothing, and an infix operator is taken for an index by its right operand. Such a
reference has a value exactly if the path without them has one, and it is the same value.
-/

namespace LazyConfig

namespace Node

/-- Whether a tree is a path: a word with names, indices and slices behind it. The brackets of other
references may stand around the front of it. -/
def isPath : Node → Bool
  | leaf token => token.kind = .word
  | reference path _ => path.isPath
  | member base _ => base.isPath
  | index base _ => base.isPath
  | slice base _ => base.isPath
  | _ => false

/-- Whether the left spine of a tree ends in a word. -/
def startsWithWord (n : Node) : Bool := n.head?.any (·.kind = .word)

/-- The path that a tree is followed as: without prefix operators and brackets, and with an index in
the place of each infix operator. -/
def followed : Node → Node
  | unary _ operand _ => operand.followed
  | reference path _ => path.followed
  | binary _ left right => index left.followed right
  | member base name => member base.followed name
  | index base operand => index base.followed operand
  | slice base bounds => slice base.followed bounds
  | n => n

end Node

/-- An operator as the index that it is taken for. -/
def Step.followed : Step → Step
  | .operator _ operand => .index operand
  | step => step

namespace Node

theorem head?_followed (n : Node) : n.followed.head? = n.head? := by
  fun_induction head? n with
  | case1 | case8 | case9 => rfl
  | _ => assumption

theorem stepsReversed_followed (n : Node) :
    n.followed.stepsReversed = n.stepsReversed.map Step.followed := by
  fun_induction stepsReversed n with
  | case4 op left right ih => exact congrArg (Step.index right :: ·) ih
  | case5 base name ih => exact congrArg (Step.member name.name :: ·) ih
  | case6 base operand ih => exact congrArg (Step.index operand :: ·) ih
  | case7 base bounds ih => exact congrArg (Step.slice bounds :: ·) ih
  | case1 | case8 | case9 => rfl
  | _ => assumption

theorem steps_followed (n : Node) : n.followed.steps = n.steps.map Step.followed := by
  rw [steps, stepsReversed_followed, steps, List.map_reverse]

/-- What a tree is followed as is a path if the tree starts with a word. -/
theorem isPath_followed (n : Node) : n.followed.isPath = n.startsWithWord := by
  unfold startsWithWord
  fun_induction head? n with
  | case1 | case8 | case9 => rfl
  | _ => assumption

end Node

namespace Resolution

open Eval
open Evaluation

variable {α β : Type} {environment : Environment} {s : Store} {m : Machine}

/-! ### Evaluations with the same values -/

/-- Two evaluations give the same values and then leave the same store; they may fail in different
ways. -/
def SameValues (environment : Environment) (e other : Eval α) : Prop :=
  ∀ s a left, e.run environment s = (.ok a, left) ↔ other.run environment s = (.ok a, left)

theorem SameValues.refl (e : Eval α) : SameValues environment e e := fun _ _ _ => Iff.rfl

theorem sameValues_of_failing {e other : Eval α}
    (fails : ∀ s a left, e.run environment s ≠ (.ok a, left))
    (alsoFails : ∀ s a left, other.run environment s ≠ (.ok a, left)) :
    SameValues environment e other :=
  fun s a left => iff_of_false (fails s a left) (alsoFails s a left)

theorem SameValues.bind {e other : Eval α} {f g : α → Eval β}
    (first : SameValues environment e other) (next : ∀ a, SameValues environment (f a) (g a)) :
    SameValues environment (e >>= f) (other >>= g) := by
  intro s b left
  constructor
  · intro ran
    obtain ⟨a, middle, before, ran⟩ := run_bind_ok ran
    rw [run_bind, (first s a middle).mp before]
    exact (next a middle b left).mp ran
  · intro ran
    obtain ⟨a, middle, before, ran⟩ := run_bind_ok ran
    rw [run_bind, (first s a middle).mpr before]
    exact (next a middle b left).mpr ran

/-- The path counts only for the error that a step from a scalar ends in. -/
theorem sameValues_take (path other : Node) (v : Value) (step : ReadyStep) :
    SameValues environment (take m path v step) (take m other v step) := by
  have scalar (path : Node) (s : Store) (a : DocumentId × Value) (left : Store) :
      (do fail (.notFound (← sourceText path)) : Eval (DocumentId × Value)).run environment s ≠
        (.ok a, left) := by
    intro ran
    obtain ⟨_, _, -, ran⟩ := run_bind_ok ran
    cases ran
  unfold take
  cases v with
  | mappingView | document | listView => exact .refl _
  | _ =>
    cases step with
    | slice => exact .refl _
    | operand => exact sameValues_of_failing (scalar path) (scalar other)

theorem ready_followed (evaluator : DocumentId) (step : Step) :
    ready m evaluator step.followed = ready m evaluator step := by
  cases step <;> rfl

/-- Steps lead to the same as those that they are taken for. -/
theorem sameValues_steps (path other : Node) (steps : List Step) (reached : DocumentId × Value) :
    SameValues environment
      (steps.foldlM (fun (evaluator, v) step => do take m path v (← ready m evaluator step)) reached)
      ((steps.map Step.followed).foldlM
        (fun (evaluator, v) step => do take m other v (← ready m evaluator step)) reached) := by
  -- the first step may lead to any document and value, so that the rest must do so from all of them
  induction steps generalizing reached with
  | nil => exact .refl _
  | cons step steps ih =>
    simp only [List.map_cons, List.foldlM_cons, ready_followed]
    apply SameValues.bind _ ih
    exact (SameValues.refl _).bind fun next => sameValues_take path other reached.2 next

/-- A tree leads to what the path that it is followed as leads to. -/
theorem sameValues_follow (id : DocumentId) (path : Node) :
    SameValues environment (follow m id path) (follow m id path.followed) := by
  rw [follow_eq, follow_eq, path.head?_followed]
  cases path.head? with
  | none => exact sameValues_of_failing (by simp) (by simp)
  | some head =>
    dsimp only
    split
    · exact sameValues_of_failing (by simp) (by simp)
    · refine SameValues.bind (.refl _) fun reached => SameValues.bind ?_ fun _ => .refl _
      unfold walk
      rw [path.steps_followed]
      exact sameValues_steps path path.followed path.steps reached

/-! ### References to trees -/

theorem run_follow_refused {id : DocumentId} {path : Node} (refused : path.startsWithWord = false) :
    (follow m id path).run environment s =
      (.error (.error ⟨.notAPath path.start, path.start⟩), s) := by
  rw [follow_eq]
  unfold Node.startsWithWord at refused
  cases isHead : path.head? with
  | none => rfl
  | some head =>
    rw [isHead] at refused
    dsimp only
    rw [if_pos (by simpa using refused)]
    rfl

/-- A reference that is not pending is refused exactly if its tree does not start with a word. If it
does, then operators in front of it and behind it make no difference: the tree is followed as a path
that signs are left out of and that has an index in the place of each infix operator. -/
theorem reference_followed {id : DocumentId} {path : Node} {sigil : Location}
    (idle : ∀ p ∈ (s.document id).pending, p.site ≠ ⟨path.source, sigil⟩) :
    let begun := s.setDocument id { s.document id with
      pending := ⟨⟨path.source, sigil⟩, path⟩ :: (s.document id).pending }
    let outcome := ((answer m (.evaluate id (.reference path sigil))).run environment s).1
    (path.startsWithWord = false →
      outcome = .error (.error ⟨.notAPath path.start, path.start⟩)) ∧
    (path.startsWithWord = true → path.followed.isPath = true ∧ ∀ v,
      outcome = .ok v ↔ ((follow m id path.followed).run environment begun).1 = .ok v) := by
  intro begun outcome
  have ran : outcome = ((follow m id path).run environment begun).1 := by
    change ((reference m id path sigil).run environment s).1 = _
    rw [reference_eq, run_bind, run_document]
    dsimp only
    rw [if_neg (by simpa using idle), run_resolve]
  rw [ran]
  constructor
  · intro refused
    rw [run_follow_refused refused]
  · intro starts
    constructor
    · rw [path.isPath_followed, starts]
    · intro v
      -- the stores that the two runs leave are the same, too, but only the values are compared
      have same := @sameValues_follow environment m id path begun v
      constructor
      · intro isValue
        exact congrArg Prod.fst ((same _).mp (Prod.ext isValue rfl))
      · intro isValue
        exact congrArg Prod.fst ((same _).mpr (Prod.ext isValue rfl))

/-- References to `-a` and to `l + 1`. -/
def operandText : Text.Decoded :=
  ⟨"a: 5\nb: $\x7b(-a)\x7d\nl: [10, 20]\nc: $\x7b(l + 1)\x7d".toList, none⟩

def operandStore : Store := ((opened false operandText none).run emptyWorld {}).2

def negated : Node := .unary .minus (.leaf ⟨.word, "a", .text "a", {}⟩) {}

theorem reference_followed_negated :
    (∀ p ∈ (operandStore.document 0).pending, p.site ≠ ⟨negated.source, {}⟩) ∧
      negated.startsWithWord = true ∧ negated.isPath = false ∧ negated.followed.isPath = true ∧
      ∀ v, ((answer ⟨answerWithin 9⟩ (.evaluate 0 (.reference negated {}))).run emptyWorld
          operandStore).1 = .ok v ↔
        ((follow ⟨answerWithin 9⟩ 0 negated.followed).run emptyWorld
          (operandStore.setDocument 0 { operandStore.document 0 with
            pending := ⟨⟨negated.source, {}⟩, negated⟩ ::
              (operandStore.document 0).pending })).1 = .ok v := by
  have idle : (operandStore.document 0).pending.isEmpty = true := by decide +kernel
  have none : ∀ p ∈ (operandStore.document 0).pending, p.site ≠ ⟨negated.source, {}⟩ := by
    rw [List.isEmpty_iff.mp idle]
    exact fun p among => absurd among List.not_mem_nil
  exact ⟨none, rfl, rfl, (reference_followed none).2 rfl⟩

def integer? : Except Failure Value → Option Int
  | .ok (.number (.int n) _) => some n
  | _ => none

/-- A sign in a reference is left out, and a sum in a reference is an element. -/
theorem operators_yield_values :
    integer? ((Document.get 0 "b").run emptyWorld operandStore).1 = some 5 ∧
      integer? ((Document.get 0 "c").run emptyWorld operandStore).1 = some 20 := by
  decide +kernel

end Resolution

end LazyConfig
