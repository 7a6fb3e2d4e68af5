import LazyConfig.Proofs.Syntax.Composition

/-!
# The spans of a tree are nested

The outline of a tree are its spans: that of the whole, and inside of it those of its parts. In the
tree of a text every span lies in the one around it, and spans side by side stand one behind the
other. A row of such spans is laid out over tokens, and to put it together is to draw one span from
the start of the first to the stop of the last.
-/

namespace LazyConfig

open Syntax (Bounds)

/-- A span, and the spans inside of it. -/
inductive Outline where
  | part (start stop : Location) (inside : List Outline)

namespace Outline

def start : Outline → Location
  | part start _ _ => start

def stop : Outline → Location
  | part _ stop _ => stop

@[simp] theorem start_part (start stop : Location) (inside : List Outline) :
    (part start stop inside).start = start := rfl

@[simp] theorem stop_part (start stop : Location) (inside : List Outline) :
    (part start stop inside).stop = stop := rfl

/-- The span does not stop before it starts. The spans inside lie in it, one behind the other, and
they are nested themselves. -/
inductive Nested : Outline → Prop
  | part {start stop : Location} {inside : List Outline} (order : start ≤ stop)
    (within : ∀ o ∈ inside, start ≤ o.start ∧ o.stop ≤ stop)
    (apart : inside.Pairwise (·.stop < ·.start)) (each : ∀ o ∈ inside, o.Nested) :
    Nested (.part start stop inside)

theorem Nested.order {o : Outline} (nested : o.Nested) : o.start ≤ o.stop := by
  cases nested with
  | part order => exact order

end Outline

namespace Token

def outline (t : Token) : Outline := .part t.span.start t.span.stop []

@[simp] theorem start_outline (t : Token) : t.outline.start = t.span.start := rfl

@[simp] theorem stop_outline (t : Token) : t.outline.stop = t.span.stop := rfl

end Token

namespace Node

mutual

/-- The span of a tree, and inside of it the outlines of what the tree is made of: operands, names,
bounds, elements, or keys and values. -/
def outline : Node → Outline
  | leaf token => token.outline
  | unary _ operand start => .part start operand.stop [operand.outline]
  | reference path _ => .part path.start path.stop [path.outline]
  | binary _ left right => .part left.start right.stop [left.outline, right.outline]
  | member base name => .part base.start name.span.stop [base.outline, name.outline]
  | index base operand => .part base.start operand.stop [base.outline, operand.outline]
  | slice base bounds => .part base.start bounds.span.stop [base.outline, boundsOutline bounds]
  | list elements span => .part span.start span.stop (outlines elements)
  | mapping entries span => .part span.start span.stop (entryOutlines entries)

def boundsOutline : Bounds Node → Outline
  | ⟨start, stop, step, span⟩ =>
    .part span.start span.stop (boundOutlines start ++ boundOutlines stop ++ boundOutlines step)

def boundOutlines : Option Node → List Outline
  | none => []
  | some bound => [bound.outline]

def outlines : List Node → List Outline
  | [] => []
  | node :: rest => node.outline :: outlines rest

def entryOutlines : List (Token × Node) → List Outline
  | [] => []
  | (key, node) :: rest => key.outline :: node.outline :: entryOutlines rest

end

@[simp] theorem start_outline (n : Node) : n.outline.start = n.start := by cases n <;> rfl

@[simp] theorem stop_outline (n : Node) : n.outline.stop = n.stop := by cases n <;> rfl

end Node

namespace Syntax

open Token (Stream)
open Token.Stream (Apart)

/-! ### Rows of spans -/

/-- Nested spans one behind the other, each of which starts and stops where tokens do. -/
structure Laid (tokens : List Token) (row : List Outline) : Prop where
  nested : ∀ o ∈ row, o.Nested
  apart : row.Pairwise (·.stop < ·.start)
  start : ∀ o ∈ row, ∃ t ∈ tokens, o.start = t.span.start
  stop : ∀ o ∈ row, ∃ t ∈ tokens, o.stop = t.span.stop

variable {tokens before behind : List Token} {row xs ys inside : List Outline}
  {first last : Outline}

theorem laid_nil (tokens : List Token) : Laid tokens [] :=
  ⟨by simp, .nil, by simp, by simp⟩

theorem laid_token {t : Token} (order : t.span.start ≤ t.span.stop) : Laid [t] [t.outline] := by
  have nested : t.outline.Nested := .part order (by simp) .nil (by simp)
  refine ⟨by simpa using nested, List.pairwise_singleton _ _, ?_, ?_⟩
  · simp
  · simp

theorem Laid.mono (laid : Laid tokens row) {more : List Token} (fewer : tokens ⊆ more) :
    Laid more row := by
  refine ⟨laid.nested, laid.apart, ?_, ?_⟩
  · intro o among
    obtain ⟨t, isToken, starts⟩ := laid.start o among
    exact ⟨t, fewer isToken, starts⟩
  · intro o among
    obtain ⟨t, isToken, stops⟩ := laid.stop o among
    exact ⟨t, fewer isToken, stops⟩

theorem Laid.append (apart : Apart (before ++ behind)) (front : Laid before xs)
    (back : Laid behind ys) : Laid (before ++ behind) (xs ++ ys) := by
  have front' := front.mono (List.subset_append_left before behind)
  have back' := back.mono (List.subset_append_right before behind)
  refine ⟨List.forall_mem_append.mpr ⟨front.nested, back.nested⟩,
    List.pairwise_append.mpr ⟨front.apart, back.apart, fun x isFront y isBack => ?_⟩,
    List.forall_mem_append.mpr ⟨front'.start, back'.start⟩,
    List.forall_mem_append.mpr ⟨front'.stop, back'.stop⟩⟩
  -- the tokens that they stop and start with are apart
  obtain ⟨t, isBefore, stops⟩ := front.stop x isFront
  obtain ⟨u, isBehind, starts⟩ := back.start y isBack
  rw [stops, starts]
  exact (List.pairwise_append.mp apart.apart).2.2 t isBefore u isBehind

/-- All spans of a row lie between the start of the first and the stop of the last. -/
theorem Laid.within (laid : Laid tokens row) (isFirst : row.head? = some first)
    (isLast : row.getLast? = some last) :
    ∀ o ∈ row, first.start ≤ o.start ∧ o.stop ≤ last.stop := by
  -- a span stops where it starts or behind, so the order of the row is that of the starts and that
  -- of the stops
  intro o among
  constructor
  · obtain ⟨rest, rfl⟩ := List.head?_eq_some_iff.mp isFirst
    rcases List.mem_cons.mp among with rfl | among
    · exact le_rfl
    · have order := (laid.nested first (by simp)).order
      exact (order.trans_lt (List.rel_of_pairwise_cons laid.apart among)).le
  · obtain ⟨front, rfl⟩ := List.getLast?_eq_some_iff.mp isLast
    rcases List.mem_append.mp among with among | among
    · have order := (laid.nested last (by simp)).order
      have less := (List.pairwise_append.mp laid.apart).2.2 o among last (by simp)
      exact (less.trans_le order).le
    · rw [List.mem_singleton.mp among]

/-- A span around a row, in which some spans of the row are left out. -/
theorem Laid.around (laid : Laid tokens row) (isFirst : row.head? = some first)
    (isLast : row.getLast? = some last) (sublist : inside.Sublist row) :
    Laid tokens [.part first.start last.stop inside] := by
  have firstAmong := List.mem_of_head? isFirst
  have lastAmong := List.mem_of_getLast? isLast
  have within := laid.within isFirst isLast
  have order : first.start ≤ last.stop :=
    (laid.nested first firstAmong).order.trans (within first firstAmong).2
  have nested : (Outline.part first.start last.stop inside).Nested :=
    .part order (fun o among => within o (sublist.subset among)) (laid.apart.sublist sublist)
      fun o among => laid.nested o (sublist.subset among)
  refine ⟨by simpa using nested, List.pairwise_singleton _ _, ?_, ?_⟩
  · simpa using laid.start first firstAmong
  · simpa using laid.stop last lastAmong

/-- A row in brackets. The span goes from the opening bracket to the closing one. -/
theorem Laid.enclosed {opening closing : Token} (laid : Laid tokens row)
    (apart : Apart (opening :: tokens ++ [closing])) :
    Laid (opening :: tokens ++ [closing])
      [.part opening.span.start closing.span.stop row] := by
  rw [List.cons_append] at apart ⊢
  have closed : Laid (tokens ++ [closing]) (row ++ [closing.outline]) :=
    laid.append apart.tail (laid_token apart.tail.right.head)
  -- the brackets are the first and the last of the row, and are left out of what stands inside
  have all : Laid (opening :: (tokens ++ [closing]))
      (opening.outline :: (row ++ [closing.outline])) :=
    (laid_token apart.head).append apart closed
  have isLast : (opening.outline :: (row ++ [closing.outline])).getLast? =
      some closing.outline := by
    rw [← List.cons_append, List.getLast?_concat]
  exact all.around rfl isLast ((List.sublist_append_left row _).cons opening.outline)

/-! ### Outlines of parts -/

def Part.outlines : Part → List Outline
  | .token t => [t.outline]
  | .tree n => [n.outline]
  | .trees ns => Node.outlines ns
  | .entries es => Node.entryOutlines es
  | .bound b => Node.boundOutlines b

/-- The string that several tokens are together goes up to the last of them. -/
theorem stop_joinStrings? {first joined : Token} {others : List Token}
    (join : joinStrings? first others = some joined) :
    joined.span.stop = ((first :: others).getLast (by simp)).span.stop := by
  unfold joinStrings? at join
  split at join
  case h_1 isLast =>
    obtain rfl := List.getLast?_eq_none_iff.mp isLast
    cases join
    rfl
  case h_2 last isLast =>
    obtain ⟨front, rfl⟩ := List.getLast?_eq_some_iff.mp isLast
    obtain ⟨values, -, made⟩ := Option.bind_eq_some_iff.mp join
    cases made
    simp

/-- The tokens that a string is joined from stand one behind the other inside of it. -/
theorem laid_joined {first joined : Token} {others : List Token}
    (join : joinStrings? first others = some joined) (apart : Apart (first :: others)) :
    Laid (first :: others) [joined.outline] := by
  have row (tokens : List Token) (apart : Apart tokens) :
      Laid tokens (tokens.map Token.outline) := by
    induction tokens with
    | nil => exact laid_nil []
    | cons t tokens ih =>
      have front : Laid [t] [t.outline] := laid_token apart.head
      exact front.append apart (ih apart.tail)
  have isLast : ((first :: others).map Token.outline).getLast? =
      some ((first :: others).getLast (by simp)).outline := by
    rw [List.getLast?_map, List.getLast?_eq_some_getLast (by simp), Option.map_some]
  have around := (row _ apart).around rfl isLast (List.nil_sublist _)
  rw [Token.start_outline, Token.stop_outline, ← start_joinStrings? join,
    ← stop_joinStrings? join] at around
  exact around

/-- A mapping without brackets goes up to its last value. -/
theorem getLast?_entryOutlines {entries : List (Token × Node)} {last : Token × Node}
    (isLast : entries.getLast? = some last) :
    (Node.entryOutlines entries).getLast? = some last.2.outline := by
  induction entries with
  | nil => cases isLast
  | cons entry entries ih =>
    cases entries with
    | nil =>
      obtain rfl : entry = last := by simpa using isLast
      rfl
    | cons next entries =>
      rw [List.getLast?_cons_cons] at isLast
      have behind := ih isLast
      simp only [Node.entryOutlines] at behind ⊢
      rw [List.getLast?_cons_cons, List.getLast?_cons_cons]
      exact behind

/-- The parts that are put together from tokens one behind the other are nested. -/
theorem Composed.laid {part : Part} {tokens : List Token} (composed : Composed part tokens)
    (apart : Apart tokens) : Laid tokens part.outlines := by
  induction composed with
  | token join => exact laid_joined join apart
  | leaf _ ih => exact ih apart
  | unary _ ih =>
    -- the span starts with the operator, which has no outline of its own
    have row := (laid_token apart.head).append apart (ih apart.tail)
    have around := row.around rfl rfl (List.sublist_cons_self _ _)
    simpa [Part.outlines, Node.outline] using around
  | @reference sigil _ tokens _ ih =>
    -- the sigil stands in front of the span
    have row := (ih apart.tail).mono (List.subset_cons_self sigil tokens)
    have around := row.around rfl rfl (List.Sublist.refl _)
    simpa [Part.outlines, Node.outline] using around
  | binary _ _ ihLeft ihRight =>
    have row := (ihLeft apart.left).append apart (ihRight apart.right)
    have around := row.around rfl rfl (List.Sublist.refl _)
    simpa [Part.outlines, Node.outline] using around
  | member _ ih =>
    have row := (ih apart.left).append apart (laid_token apart.right.head)
    have around := row.around rfl rfl (List.Sublist.refl _)
    simpa [Part.outlines, Node.outline] using around
  | @index _ _ opening _ behind _ _ ihBase ihOperand =>
    -- the bracket stands between both parts, the closing one behind the span
    have operand := (ihOperand apart.right.tail).mono (List.subset_cons_self opening behind)
    have row := (ihBase apart.left).append apart operand
    have around := row.around rfl rfl (List.Sublist.refl _)
    simpa [Part.outlines, Node.outline] using around
  | slice _ _ _ _ ihBase ihStart ihStop ihStep =>
    rw [List.append_assoc] at apart ⊢
    -- the span of the bounds goes from one bracket to the other
    have inner := apart.right.tail.left
    have two := (ihStart inner.left.left).append inner.left (ihStop inner.left.right)
    have three := two.append inner (ihStep inner.right)
    have row := (ihBase apart.left).append apart (three.enclosed apart.right)
    have around := row.around rfl rfl (List.Sublist.refl _)
    simpa [Part.outlines, Node.outline, Node.boundsOutline] using around
  | list _ ih => exact (ih apart.tail.left).enclosed apart
  | mapping _ ih => exact (ih apart.tail.left).enclosed apart
  | @body key value rest _ _ _ isStart isStop ih =>
    have isLast := getLast?_entryOutlines
      (List.getLast?_eq_some_getLast (List.cons_ne_nil (key, value) rest))
    have around := (ih apart).around rfl isLast (List.Sublist.refl _)
    simpa [Part.outlines, Node.outline, isStart, isStop] using around
  | noTrees => exact laid_nil []
  | trees _ _ ihFirst ihRest => exact (ihFirst apart.left).append apart (ihRest apart.right)
  | noEntries => exact laid_nil []
  | entries _ _ _ ihKey ihValue ihRest =>
    have entry := (ihKey apart.left.left).append apart.left (ihValue apart.left.right)
    exact entry.append apart (ihRest apart.right)
  | noBound => exact laid_nil []
  | bound _ ih => exact ih apart

/-- The tree of a whole text is nested. -/
theorem Whole.nested {c : Course} {root : Node} (whole : Whole c root)
    (ordered : c.origin.Ordered) : root.outline.Nested := by
  rcases whole with ⟨taken, left, composed, stands⟩ | ⟨span, rfl, isEmpty, -⟩
  · obtain ⟨-, apart, -⟩ := stands.reaches.ordered ordered
    exact (composed.laid apart).nested root.outline (by simp [Part.outlines])
  · exact .part isEmpty.ge (by simp [Node.entryOutlines]) .nil (by simp [Node.entryOutlines])

/-! ### Rules that make trees -/

/-- The rules that texts are parsed by. -/
inductive Rule where
  | container | mapping | list | primary | expression
deriving DecidableEq

def Rule.parser : Rule → Parser Node
  | container => withNesting Syntax.container
  | mapping => withNesting Syntax.mapping
  | list => withNesting Syntax.list
  | primary => withNesting Syntax.primary
  | expression => Syntax.expression

theorem Rule.ends {c : Course} {s : Stream} (rule : Rule) (stands : c.Stands [] s) :
    Parser.Ends c.Blames s rule.parser fun root _ => Whole c root := by
  have whole {size : Nat} {p : Parser Node} (small : s.size < size)
      (expresses : Course.Expresses c size p) :
      Parser.Ends c.Blames s p fun root _ => Whole c root :=
    expresses.ends stands small fun root more left composed _ stands =>
      .inl ⟨more, left, composed, by simpa using stands⟩
  cases rule with
  | container =>
    exact Course.ends_withNesting fun size nested small inner =>
      (Course.ends_container inner stands small).mono fun _ _ => And.right
  | mapping =>
    exact Course.ends_withNesting fun size nested small inner =>
      whole (Nat.lt_succ_of_lt small) (Course.composes_mapping inner)
  | list =>
    exact Course.ends_withNesting fun size nested small inner =>
      whole (Nat.lt_succ_of_lt small) (Course.composes_list inner)
  | primary =>
    exact Course.ends_withNesting fun size nested small inner =>
      whole (Nat.lt_succ_of_lt small) (Course.composes_primary inner)
  | expression =>
    exact Course.ends_withNesting fun size nested small inner =>
      whole (Nat.lt_succ_of_lt small) (Course.expresses_ofLevel inner .disjunction)

/-- Whatever rule a text is parsed by, the spans of its tree are nested. -/
theorem Rule.tree_nested {rule : Rule} {text : Text.Decoded} {source : Nat} {s left : Stream}
    {root : Node} (made : Stream.ofText text source = .ok s)
    (ran : rule.parser.run s = (.ok root, left)) : root.outline.Nested := by
  have sound : s.Sound (fun _ => True) (fun _ => True) :=
    sound_ofText made (fun _ _ => trivial) fun _ _ => trivial
  let course : Course := ⟨s, fun _ => True, fun _ => True⟩
  have ends : Parser.Ends course.Blames s rule.parser fun root _ => Whole course root :=
    rule.ends ⟨.start, sound⟩
  exact (ends.yields root left ran).nested (Stream.ordered_ofText made)

/-- A mapping without braces, with keys of two strings, a slice, a reference and parentheses. -/
theorem Rule.tree_nested_mapping :
    ∃ (text : String) (s left : Stream) (root : Node),
      text = "'a' \"b\": [-x[1:], ${c[0]}]\nd = (2)" ∧ Stream.ofText ⟨text.toList, none⟩ 0 = .ok s ∧
      Rule.container.parser.run s = (.ok root, left) ∧ root.outline.Nested := by
  let text := "'a' \"b\": [-x[1:], ${c[0]}]\nd = (2)"
  let read (s : Stream) : Option Node := (Rule.container.parser.run s).1.toOption
  have succeeds : ((Stream.ofText ⟨text.toList, none⟩ 0).toOption.bind read).isSome := by
    decide +kernel
  have ok {ε α : Type} {result : Except ε α} {a : α} (found : result.toOption = some a) :
      result = .ok a := by
    cases result <;> cases found
    rfl
  obtain ⟨root, isRoot⟩ := Option.isSome_iff_exists.mp succeeds
  obtain ⟨s, isStream, isRoot⟩ := Option.bind_eq_some_iff.mp isRoot
  have made : Stream.ofText ⟨text.toList, none⟩ 0 = .ok s := ok isStream
  have ran : Rule.container.parser.run s = (.ok root, (Rule.container.parser.run s).2) :=
    Prod.ext (ok isRoot) rfl
  exact ⟨text, s, _, root, rfl, made, ran, tree_nested made ran⟩

end Syntax

end LazyConfig
