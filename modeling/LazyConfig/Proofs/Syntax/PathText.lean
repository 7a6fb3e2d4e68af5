import LazyConfig.Proofs.Syntax.Grammar
import LazyConfig.Syntax.Path

/-!
# The text of a path

Every tree can be taken for a path, but not every tree has a text as one. The text is put together
from the token that the left spine ends in and from the steps behind it; the operands of the steps
are written in the same way, except that a single token stands as it was read. A tree therefore has a
text exactly if no infix operator, list or mapping stands where a path or an operand starts, and the
text does not depend on locations.
-/

namespace LazyConfig

open Syntax (Bounds InfixOp)

/-- A step without the locations in its operands. -/
def Step.bare : Step → Step
  | .member name => .member name
  | .index operand => .index operand.bare
  | .slice bounds => .slice (Node.bareBounds bounds)
  | .operator op operand => .operator op operand.bare

namespace Node

/-- The token that a tree consists of, if it is a single one. -/
def token? : Node → Option Token
  | leaf token => some token
  | _ => none

@[simp] theorem token?_bare (n : Node) : n.bare.token? = n.token?.map Token.bare := by
  cases n <;> rfl

theorem head?_bare (n : Node) : n.bare.head? = n.head?.map Token.bare := by
  fun_induction head? n with
  | case1 | case8 | case9 => rfl
  | _ => assumption

theorem stepsReversed_bare (n : Node) :
    n.bare.stepsReversed = n.stepsReversed.map Step.bare := by
  fun_induction stepsReversed n with
  | case4 op left right ih => exact congrArg (Step.operator op right.bare :: ·) ih
  | case5 base name ih => exact congrArg (Step.member name.name :: ·) ih
  | case6 base operand ih => exact congrArg (Step.index operand.bare :: ·) ih
  | case7 base bounds ih => exact congrArg (Step.slice (bareBounds bounds) :: ·) ih
  | case1 | case8 | case9 => rfl
  | _ => assumption

theorem steps_bare (n : Node) : n.bare.steps = n.steps.map Step.bare := by
  rw [steps, stepsReversed_bare, steps, List.map_reverse]

end Node

/-! ### Parts of a text -/

namespace Path

variable {base operand n : Node} {bounds : Bounds Node} {name : Token} {mark text : String}

private theorem bind_eq_ok {α β : Type} {first : Except SourceFault α}
    {next : α → Except SourceFault β} {b : β} :
    (first >>= next) = .ok b ↔ ∃ a, first = .ok a ∧ next a = .ok b := by
  cases first with
  | error fault => simp [bind, Except.bind]
  | ok a => simp [bind, Except.bind]

private theorem pure_eq_ok {α : Type} {a b : α} :
    (pure a : Except SourceFault α) = .ok b ↔ a = b := by
  simp [pure, Except.pure]

theorem beforeStep_eq_ok {result : Except SourceFault String} :
    beforeStep result = .ok text ↔ result = .ok text := by
  unfold beforeStep
  split
  · simp
  · rfl

/-- A tree has the text of the token that it consists of, or else that of its spine. -/
theorem sourceText_eq_ok : n.sourceText = .ok text ↔
    (∃ token, n.token? = some token ∧ token.text = text) ∨
      n.token? = none ∧ spine n = .ok text := by
  have other (inner : n.token? = none) : n.sourceText = .ok text ↔ spine n = .ok text := by
    unfold Node.sourceText ofSpine
    split
    · cases inner
    case h_2 failed =>
      rw [failed]
      split <;> simp
    · rfl
  cases isToken : n.token? with
  | none => simpa using other isToken
  | some token =>
    cases n <;> cases isToken
    simp [Node.sourceText, ofSpine]

theorem spine_leaf {token : Token} :
    spine (.leaf token) = .ok text ↔ token.value.describe? = some text := by
  unfold spine
  cases token.value.describe? <;> simp

theorem spine_binary {op : InfixOp} {left right : Node} :
    spine (.binary op left right) ≠ .ok text := by
  simp [spine, bind_eq_ok, throw, throwThe, MonadExceptOf.throw]

theorem spine_member : spine (.member base name) = .ok text ↔
    ∃ before, spine base = .ok before ∧ before ++ "." ++ name.name = text := by
  simp only [spine, bind_eq_ok, beforeStep_eq_ok, pure_eq_ok]

theorem spine_index : spine (.index base operand) = .ok text ↔
    ∃ before, spine base = .ok before ∧ ∃ inside, operand.sourceText = .ok inside ∧
      before ++ "[" ++ inside ++ "]" = text := by
  simp only [spine, bind_eq_ok, beforeStep_eq_ok, pure_eq_ok, Node.sourceText]

theorem spine_slice : spine (.slice base bounds) = .ok text ↔
    ∃ before, spine base = .ok before ∧ ∃ inside, boundsText bounds = .ok inside ∧
      before ++ inside = text := by
  simp only [spine, bind_eq_ok, beforeStep_eq_ok, pure_eq_ok]

theorem boundText_some : boundText mark (some n) = .ok text ↔
    ∃ inside, n.sourceText = .ok inside ∧ mark ++ inside = text := by
  simp only [boundText, bind_eq_ok, pure_eq_ok, Node.sourceText]

theorem boundsText_eq_ok {start stop step : Option Node} {span : Span} :
    boundsText ⟨start, stop, step, span⟩ = .ok text ↔
      ∃ first, boundText "" start = .ok first ∧ ∃ last, boundText ":" stop = .ok last ∧
        ∃ width, boundText ":" step = .ok width ∧
          "[" ++ first ++ (if last = "" then ":" else last) ++ width ++ "]" = text := by
  simp only [boundsText, bind_eq_ok, pure_eq_ok]

/-! ### Locations do not matter -/

/-- Trees of the same token, or with the same texts of their spines, have the same text. -/
private theorem sourceText_congr {m : Node} (sameToken : n.token?.map (·.text) = m.token?.map (·.text))
    (sameSpine : ∀ text, spine n = .ok text ↔ spine m = .ok text) :
    n.sourceText = .ok text ↔ m.sourceText = .ok text := by
  rw [sourceText_eq_ok, sourceText_eq_ok, sameSpine]
  cases ofN : n.token? <;> cases ofM : m.token? <;> simp_all

private theorem sourceText_bare_of_spine
    (sameSpine : ∀ text, spine n.bare = .ok text ↔ spine n = .ok text) :
    n.bare.sourceText = .ok text ↔ n.sourceText = .ok text :=
  sourceText_congr (by cases n <;> rfl) sameSpine

mutual

theorem spine_bare : ∀ (n : Node) (text : String), spine n.bare = .ok text ↔ spine n = .ok text
  | .leaf _, _ => Iff.rfl
  | .unary _ operand _, text => spine_bare operand text
  | .reference path _, text => spine_bare path text
  | .binary _ _ _, _ => iff_of_false spine_binary spine_binary
  | .member base name, text => by
    simp only [Node.bare, spine_member, spine_bare base]
    rfl
  | .index base operand, text => by
    have inside := fun text => @sourceText_bare_of_spine operand text (spine_bare operand)
    simp only [Node.bare, spine_index, spine_bare base, inside]
  | .slice base bounds, text => by
    simp only [Node.bare, spine_slice, spine_bare base, boundsText_bare bounds]
  | .list _ _, _ => Iff.rfl
  | .mapping _ _, _ => Iff.rfl

theorem boundsText_bare : ∀ (bounds : Bounds Node) (text : String),
    boundsText (Node.bareBounds bounds) = .ok text ↔ boundsText bounds = .ok text
  | ⟨start, stop, step, _⟩, text => by
    simp only [Node.bareBounds, boundsText_eq_ok, boundText_bare _ start, boundText_bare _ stop,
      boundText_bare _ step]

theorem boundText_bare (mark : String) : ∀ (bound : Option Node) (text : String),
    boundText mark (Node.bareBound bound) = .ok text ↔ boundText mark bound = .ok text
  | none, _ => Iff.rfl
  | some bound, text => by
    have inside := fun text => @sourceText_bare_of_spine bound text (spine_bare bound)
    simp only [Node.bareBound, boundText_some, inside]

end

theorem sourceText_bare (n : Node) (text : String) :
    n.bare.sourceText = .ok text ↔ n.sourceText = .ok text :=
  sourceText_bare_of_spine (spine_bare n)

/-- Trees that differ in locations only have the same text. -/
theorem sourceText_of_bare_eq {m : Node} (same : n.bare = m.bare)
    (written : n.sourceText = .ok text) : m.sourceText = .ok text := by
  rw [← sourceText_bare, ← same, sourceText_bare]
  exact written

end Path

/-! ### Trees that have a text -/

namespace Node

mutual

/-- Whether a tree can be written as a path: no infix operator stands on its left spine, which ends
in a token that can be shown, and each operand of a step is a token or can be written in turn. -/
def isWritable : Node → Bool
  | leaf token => token.value.describe?.isSome
  | unary _ operand _ => operand.isWritable
  | reference path _ => path.isWritable
  | binary _ _ _ => false
  | member base _ => base.isWritable
  | index base operand => base.isWritable && (operand.token?.isSome || operand.isWritable)
  | slice base bounds => base.isWritable && boundsWritable bounds
  | list _ _ => false
  | mapping _ _ => false

def boundsWritable : Bounds Node → Bool
  | ⟨start, stop, step, _⟩ => boundWritable start && boundWritable stop && boundWritable step

def boundWritable : Option Node → Bool
  | none => true
  | some bound => bound.token?.isSome || bound.isWritable

end

/-- Whether a tree has a text as a path. -/
def hasText (n : Node) : Bool := n.token?.isSome || n.isWritable

private theorem exists_sourceText_of_spine {n : Node}
    (ofSpine : (∃ text, Path.spine n = .ok text) ↔ n.isWritable) :
    (∃ text, n.sourceText = .ok text) ↔ n.token?.isSome || n.isWritable := by
  simp only [Path.sourceText_eq_ok]
  cases isToken : n.token? with
  | none => simpa using ofSpine
  | some token => simp

mutual

theorem exists_spine_iff : ∀ n : Node, (∃ text, Path.spine n = .ok text) ↔ n.isWritable
  | leaf token => by simp only [Path.spine_leaf, isWritable, Option.isSome_iff_exists]
  | member base name => by
    simp only [isWritable, ← exists_spine_iff base, Path.spine_member]
    constructor
    · rintro ⟨_, before, written, -⟩
      exact ⟨before, written⟩
    · rintro ⟨before, written⟩
      exact ⟨_, before, written, rfl⟩
  | index base operand => by
    simp only [isWritable, Bool.and_eq_true, ← exists_spine_iff base,
      ← exists_sourceText_of_spine (exists_spine_iff operand), Path.spine_index]
    constructor
    · rintro ⟨_, before, written, inside, isInside, -⟩
      exact ⟨⟨before, written⟩, inside, isInside⟩
    · rintro ⟨⟨before, written⟩, inside, isInside⟩
      exact ⟨_, before, written, inside, isInside, rfl⟩
  | slice base bounds => by
    simp only [isWritable, Bool.and_eq_true, ← exists_spine_iff base,
      ← exists_boundsText_iff bounds, Path.spine_slice]
    constructor
    · rintro ⟨_, before, written, inside, isInside, -⟩
      exact ⟨⟨before, written⟩, inside, isInside⟩
    · rintro ⟨⟨before, written⟩, inside, isInside⟩
      exact ⟨_, before, written, inside, isInside, rfl⟩
  | unary _ operand _ => exists_spine_iff operand
  | reference path _ => exists_spine_iff path
  | binary _ _ _ => by simp [Path.spine_binary, isWritable]
  | list _ _ => by simp [Path.spine, isWritable]
  | mapping _ _ => by simp [Path.spine, isWritable]

theorem exists_boundsText_iff : ∀ bounds : Bounds Node,
    (∃ text, Path.boundsText bounds = .ok text) ↔ boundsWritable bounds
  | ⟨start, stop, step, _⟩ => by
    simp only [boundsWritable, Bool.and_eq_true, ← exists_boundText_iff "" start,
      ← exists_boundText_iff ":" stop, ← exists_boundText_iff ":" step, Path.boundsText_eq_ok]
    constructor
    · rintro ⟨_, first, isFirst, last, isLast, width, isWidth, -⟩
      exact ⟨⟨⟨first, isFirst⟩, last, isLast⟩, width, isWidth⟩
    · rintro ⟨⟨⟨first, isFirst⟩, last, isLast⟩, width, isWidth⟩
      exact ⟨_, first, isFirst, last, isLast, width, isWidth, rfl⟩

theorem exists_boundText_iff (mark : String) : ∀ bound : Option Node,
    (∃ text, Path.boundText mark bound = .ok text) ↔ boundWritable bound
  | none => by simp [Path.boundText, boundWritable]
  | some bound => by
    rw [boundWritable, ← exists_sourceText_of_spine (exists_spine_iff bound)]
    simp only [Path.boundText_some]
    exact ⟨fun ⟨_, inside, written, _⟩ => ⟨inside, written⟩,
      fun ⟨inside, written⟩ => ⟨_, inside, written, rfl⟩⟩

end

theorem exists_sourceText_iff (n : Node) : (∃ text, n.sourceText = .ok text) ↔ n.hasText :=
  exists_sourceText_of_spine (exists_spine_iff n)

end Node

end LazyConfig
