import LazyConfig.Evaluation.Follow
import LazyConfig.Proofs.Resolution.Plain

/-!
# The meaning of plain trees

What a plain tree stands for does not depend on what has been looked at before. It is traced within
a depth, since a reference that leads back to itself has no meaning: a trace is unfinished as long
as the depth does not suffice, and from some depth on it does not change any more.
-/

namespace LazyConfig.Resolution

open Syntax (Bounds)
open Evaluation (slicePositions collectEntries)

/-! ### Traces -/

/-- How far something has been traced. -/
inductive Trace (α : Type) where
  | unfinished
  | failed
  | done (a : α)

namespace Trace

variable {α β : Type}

def bind : Trace α → (α → Trace β) → Trace β
  | unfinished, _ => unfinished
  | failed, _ => failed
  | done a, next => next a

instance : Monad Trace where
  pure := done
  bind := bind

@[simp] theorem unfinished_bind (next : α → Trace β) : (unfinished >>= next) = unfinished := rfl

@[simp] theorem failed_bind (next : α → Trace β) : (failed >>= next) = failed := rfl

@[simp] theorem done_bind (a : α) (next : α → Trace β) : (done a >>= next) = next a := rfl

instance : LawfulMonad Trace :=
  LawfulMonad.mk' Trace
    (fun x => by cases x <;> rfl)
    (fun _ _ => rfl)
    (fun x _ _ => by cases x <;> rfl)

/-- What comes of tracing deeper and deeper: unfinished up to some depth, and the same result from
there on. -/
def Ends (course : Nat → Trace α) (result : Trace α) : Prop :=
  ∃ enough, ∀ depth, course depth = if enough ≤ depth then result else unfinished

theorem Ends.const (result : Trace α) : Ends (fun _ => result) result := ⟨0, by simp⟩

theorem Ends.eq_of_ne {course : Nat → Trace α} {result : Trace α} {depth : Nat}
    (ends : Ends course result) (finished : course depth ≠ unfinished) :
    course depth = result := by
  obtain ⟨enough, known⟩ := ends
  have here := known depth
  split at here
  · exact here
  · exact absurd here finished

theorem Ends.reached {course : Nat → Trace α} {result : Trace α} (ends : Ends course result) :
    ∃ depth, course depth = result := by
  obtain ⟨enough, known⟩ := ends
  exact ⟨enough, by simp [known]⟩

theorem Ends.bind {course : Nat → Trace α} {next : Nat → α → Trace β} {a : α} {result : Trace β}
    (first : Ends course (done a)) (second : Ends (fun depth => next depth a) result) :
    Ends (fun depth => course depth >>= next depth) result := by
  obtain ⟨enough, known⟩ := first
  obtain ⟨more, found⟩ := second
  refine ⟨max enough more, fun depth => ?_⟩
  have here := found depth
  dsimp only at here ⊢
  rw [known depth]
  by_cases begun : enough ≤ depth
  · simp [begun, here]
  · simp [begun]

theorem Ends.bind_failed {course : Nat → Trace α} {next : Nat → α → Trace β}
    (first : Ends course failed) : Ends (fun depth => course depth >>= next depth) failed := by
  obtain ⟨enough, known⟩ := first
  refine ⟨enough, fun depth => ?_⟩
  dsimp only
  rw [known depth]
  split <;> rfl

/-- One more level of depth. -/
theorem Ends.succ {course : Nat → Trace α} {deeper : Nat → Trace α} {result : Trace α}
    (ends : Ends course result) (zero : deeper 0 = unfinished)
    (succ : ∀ depth, deeper (depth + 1) = course depth) : Ends deeper result := by
  obtain ⟨enough, known⟩ := ends
  refine ⟨enough + 1, fun depth => ?_⟩
  cases depth with
  | zero => simpa using zero
  | succ depth => simp [succ, known]

end Trace

open Trace (Ends)

/-! ### Meanings -/

/-- What a plain tree stands for: a scalar, a list of trees that are still to be looked at, a slice
of such a list, whose elements have been looked at, or a mapping. -/
inductive Meaning where
  | scalar (value : Value)
  | list (elements : List Node)
  | part (items : List Meaning)
  | mapping (entries : List (String × Slot))

namespace Meaning

/-- What stands in a list. -/
def cells : Meaning → Option (List (Node ⊕ Meaning))
  | list elements => some (elements.map .inl)
  | part items => some (items.map .inr)
  | _ => none

section

variable (ask : Node → Trace Meaning)

/-- The meaning of what stands in a list. -/
def ofCell : Node ⊕ Meaning → Trace Meaning
  | .inl node => ask node
  | .inr m => pure m

def ofSlot : Slot → Trace Meaning
  | .node node => ask node
  | .value _ => .failed

/-- What stands in a mapping under a key. -/
def under (m : Meaning) (key : String) : Trace Meaning :=
  match m with
  | mapping entries =>
    match entries.lookup key with
    | some slot => ofSlot ask slot
    | none => .failed
  | _ => .failed

/-- The element of a list at a position that counts from its start. -/
def nth (cells : List (Node ⊕ Meaning)) (position : Nat) : Trace Meaning :=
  match cells[position]? with
  | some cell => ofCell ask cell
  | none => .failed

/-- The element of a list at an index; a negative one counts from the end once. -/
def element (m : Meaning) (index : Int) : Trace Meaning :=
  match m.cells with
  | some cells =>
    let size : Int := cells.length
    let position := if -size ≤ index ∧ index < 0 then index + size else index
    if position < 0 then .failed else nth ask cells position.toNat
  | none => .failed

/-- The integer that something stands for. -/
def integer : Meaning → Trace Int
  | scalar (.number (.int n) _) => pure n
  | _ => .failed

/-- The integer that a bound stands for. -/
def bound (node : Node) : Trace Int := do (← ask node).integer

/-- The step between the positions of a slice. -/
def stride (bounds : Bounds Node) : Trace Int :=
  match bounds.step with
  | none => pure 1
  | some node => bound ask node

/-- The positions of a list that a slice goes through. -/
def positions (size : Nat) (bounds : Bounds Node) (stride : Int) : Trace (List Nat) :=
  if stride = 0 then .failed
  else if size = 0 then pure []
  else do
    let start ← bounds.start.mapM (bound ask)
    let stop ← bounds.stop.mapM (bound ask)
    return slicePositions size start stop stride

/-- The elements that a slice selects. -/
def slice (m : Meaning) (bounds : Bounds Node) : Trace Meaning :=
  match m.cells with
  | some cells => do
    let selected ← positions ask cells.length bounds (← stride ask bounds)
    return part (← selected.mapM (nth ask cells))
  | none => .failed

/-- What stands in a container under a key or at an index. -/
def item (m : Meaning) : Meaning → Trace Meaning
  | scalar (.text key _) => m.under ask key
  | scalar (.number (.int index) _) => m.element ask index
  | _ => .failed

/-- What a step leads to. -/
def step (m : Meaning) : Step → Trace Meaning
  | .member name => m.under ask name
  | .index operand => do m.item ask (← ask operand)
  | .slice bounds => m.slice ask bounds
  | .operator _ _ => .failed

/-- What a path leads to from the entries of a document. -/
def along (entries : List (String × Slot)) (path : Node) : Trace Meaning :=
  match path.head? with
  | some head => do
    let first ← (mapping entries).under ask head.name
    path.steps.foldlM (fun m s => m.step ask s) first
  | none => .failed

end

/-- What a tree means by itself, if references mean what they are given to mean. -/
def ofNode (unique : Bool) (refer : Node → Trace Meaning) : Node → Trace Meaning
  | .leaf token => pure (scalar (.ofLiteral token.span token.value))
  | .reference path _ => refer path
  | .list elements _ => pure (list elements)
  | .mapping entries _ =>
    match collectEntries unique [] [] entries with
    | .ok found => pure (mapping found)
    | .error _ => .failed
  | _ => .failed

/-- The meaning of a tree in a document with the given entries, within a depth. -/
def within (unique : Bool) (entries : List (String × Slot)) : Nat → Node → Trace Meaning
  | 0, _ => .unfinished
  | depth + 1, node => ofNode unique (along (within unique entries depth) entries) node

end Meaning

end LazyConfig.Resolution
