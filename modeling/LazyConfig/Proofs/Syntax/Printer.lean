import LazyConfig.Proofs.Syntax.Completeness

/-!
# Expressions are read as they are written

An expression is written with parentheses around an operand exactly where the operand's level is
looser than the one that may stand there. Read again, the tokens give the same tree.
-/

namespace LazyConfig

open Token (Kind)
open Syntax (Level PrefixOp InfixOp Bounds Derives Strings Key AreNewlines)

namespace Syntax

/-- How the tokens that are no leaves are spelt. -/
structure Spelling where
  mark : Kind → Token
  isKind : ∀ k, (mark k).kind = k

/-- The tokens of an expression at a place for expressions of the level `context`. -/
def Spelling.within (s : Spelling) (context level : Level) (tokens : List Token) : List Token :=
  if level.rank < context.rank then
    s.mark .leftParenthesis :: tokens ++ [s.mark .rightParenthesis]
  else tokens

end Syntax

namespace Node

/-! ### Writing -/

/-- The level of the operator at the root of a tree. -/
def level : Node → Level
  | unary op _ _ => op.level
  | binary op _ _ => op.level
  | _ => .primary

mutual

/-- Whether a tree is one of an expression: leaves are values, a name is a word, and a key is a word
or a string. -/
def isExpression : Node → Bool
  | leaf token => Syntax.startsValue token.kind
  | unary _ operand _ => operand.isExpression
  | reference path _ => path.isExpression
  | binary _ left right => left.isExpression && right.isExpression
  | member base name => base.isExpression && name.kind = .word
  | index base operand => base.isExpression && operand.isExpression
  | slice base bounds => base.isExpression && areExpressions bounds
  | list elements _ => allExpressions elements
  | mapping entries _ => valuesExpressions entries

def areExpressions : Bounds Node → Bool
  | ⟨start, stop, step, _⟩ => optExpression start && optExpression stop && optExpression step

def optExpression : Option Node → Bool
  | none => true
  | some bound => bound.isExpression

def allExpressions : List Node → Bool
  | [] => true
  | node :: rest => node.isExpression && allExpressions rest

def valuesExpressions : List (Token × Node) → Bool
  | [] => true
  | (key, node) :: rest =>
    (key.kind = .word || key.kind = .string) && node.isExpression && valuesExpressions rest

end

mutual

/-- The tokens of an expression. -/
def written (s : Syntax.Spelling) : Node → List Token
  | leaf token => [token]
  | unary op operand _ => s.mark op.kind :: s.within op.level operand.level (operand.written s)
  | reference path _ =>
    s.mark .dollar :: s.mark .leftCurly :: s.within .primary path.level (path.written s) ++
      [s.mark .rightCurly]
  | binary op left right =>
    s.within op.left left.level (left.written s) ++ op.kinds.map s.mark ++
      s.within op.right right.level (right.written s)
  | member base name => s.within .primary base.level (base.written s) ++ [s.mark .dot, name]
  | index base operand =>
    s.within .primary base.level (base.written s) ++ s.mark .leftBracket :: operand.written s ++
      [s.mark .rightBracket]
  | slice base bounds =>
    s.within .primary base.level (base.written s) ++
      s.mark .leftBracket :: boundsWritten s bounds ++ [s.mark .rightBracket]
  | list elements _ =>
    s.mark .leftBracket :: elementsWritten s elements ++ [s.mark .rightBracket]
  | mapping entries _ =>
    s.mark .leftCurly :: entriesWritten s entries ++ [s.mark .rightCurly]

def boundsWritten (s : Syntax.Spelling) : Bounds Node → List Token
  | ⟨start, stop, step, _⟩ =>
    boundWritten s start ++ s.mark .colon :: boundWritten s stop ++ stepWritten s step

def boundWritten (s : Syntax.Spelling) : Option Node → List Token
  | none => []
  | some bound => bound.written s

/-- A step that is left out has no colon before it. -/
def stepWritten (s : Syntax.Spelling) : Option Node → List Token
  | none => []
  | some step => s.mark .colon :: step.written s

def elementsWritten (s : Syntax.Spelling) : List Node → List Token
  | [] => []
  | [node] => node.written s
  | node :: next :: rest => node.written s ++ s.mark .comma :: elementsWritten s (next :: rest)

def entriesWritten (s : Syntax.Spelling) : List (Token × Node) → List Token
  | [] => []
  | [(key, node)] => key :: s.mark .colon :: node.written s
  | (key, node) :: next :: rest =>
    key :: s.mark .colon :: node.written s ++ s.mark .comma :: entriesWritten s (next :: rest)

end

end Node

/-! ### What is written is derived -/

namespace Syntax

variable {s : Spelling} {context level : Level} {tree : Node} {tokens : List Token}

theorem Level.rank_le_primary (level : Level) : level.rank ≤ Level.primary.rank := by
  cases level <;> decide

theorem Level.disjunction_rank_le (level : Level) : Level.disjunction.rank ≤ level.rank := by
  cases level <;> decide

theorem Spelling.derives_within (derived : Derives (.expression level tree) tokens) :
    Derives (.expression context tree) (s.within context level tokens) := by
  rw [within]
  split
  case isTrue =>
    have inside := derived.loosen level.disjunction_rank_le
    exact (Derives.parentheses (s.isKind _) (s.isKind _) inside).loosen context.rank_le_primary
  case isFalse notLooser => exact derived.loosen (Nat.not_lt.mp notLooser)

theorem strings_single {t : Token} (isString : t.kind = .string) : Strings [t] t.bare :=
  .joined (by simpa using isString) rfl

theorem derives_leaf {t : Token} (isValue : startsValue t.kind) :
    Derives (.expression .primary (.leaf t.bare)) [t] := by
  by_cases isString : t.kind = .string
  · exact .strings (strings_single isString)
  · exact .value isValue isString

theorem areNewlines_nil : AreNewlines [] := by simp [AreNewlines]

theorem derives_elements_single (derived : Derives (.expression level tree) tokens) :
    Derives (.elements [tree]) tokens :=
  .lastElement areNewlines_nil (derived.loosen level.disjunction_rank_le)

theorem Spelling.derives_entry {key : Token} (isKey : key.kind = .word ∨ key.kind = .string)
    (derived : Derives (.expression level tree) tokens) :
    Derives (.entry (key.bare, tree)) (key :: s.mark .colon :: tokens) := by
  have ofKey : Key [key] key.bare := isKey.elim .word fun isString =>
    .strings (strings_single isString)
  have isSign : (s.mark .colon).kind = .colon ∨ (s.mark .colon).kind = .assign :=
    .inl (s.isKind _)
  exact .keyed ofKey isSign areNewlines_nil (derived.loosen level.disjunction_rank_le)

theorem Spelling.isSeparator_comma (s : Spelling) : isSeparator (s.mark .comma).kind := by
  rw [s.isKind]
  rfl

end Syntax

namespace Node

variable (s : Syntax.Spelling)

mutual

theorem derives_written : ∀ n : Node, n.isExpression →
    Derives (.expression n.level n.bare) (n.written s)
  | leaf token, isValue => Syntax.derives_leaf isValue
  | unary op operand _, inside =>
    .unary (s.isKind _) (s.derives_within (derives_written operand inside))
  | reference path _, inside =>
    .reference (s.isKind _) (s.isKind _) (s.isKind _)
      (s.derives_within (derives_written path inside))
  | binary op left right, inside => by
    have ⟨ofLeft, ofRight⟩ := Bool.and_eq_true_iff.mp inside
    have areMarks : (op.kinds.map s.mark).map (·.kind) = op.kinds := by
      simp [Function.comp_def, s.isKind]
    exact .binary areMarks (s.derives_within (derives_written left ofLeft))
      (s.derives_within (derives_written right ofRight))
  | member base name, inside => by
    have ⟨ofBase, isWord⟩ := Bool.and_eq_true_iff.mp inside
    exact .member (s.derives_within (derives_written base ofBase)) (s.isKind _)
      (of_decide_eq_true isWord)
  | index base operand, inside => by
    have ⟨ofBase, ofOperand⟩ := Bool.and_eq_true_iff.mp inside
    exact .index (s.derives_within (derives_written base ofBase)) (s.isKind _) (s.isKind _)
      (Syntax.derives_elements_single (derives_written operand ofOperand))
  | slice base ⟨start, stop, step, _⟩, inside => by
    have ⟨ofBase, ofBounds⟩ := Bool.and_eq_true_iff.mp inside
    have ⟨ofEnds, ofStep⟩ := Bool.and_eq_true_iff.mp ofBounds
    have ⟨ofStart, ofStop⟩ := Bool.and_eq_true_iff.mp ofEnds
    have sliced := Derives.slice (s.derives_within (derives_written base ofBase)) (s.isKind _)
      (s.isKind _) (s.isKind _) (derives_boundWritten start ofStart)
      (derives_boundWritten stop ofStop) (derives_stepWritten step ofStep)
    simpa [written, boundsWritten, level, bare, bareBounds] using sliced
  | list elements _, inside =>
    .enclosed (.list (s.isKind _) (s.isKind _) (derives_elementsWritten elements inside))
  | mapping entries _, inside =>
    .enclosed (.mapping (s.isKind _) (s.isKind _) (derives_entriesWritten entries inside))

theorem derives_boundWritten : ∀ bound : Option Node, optExpression bound →
    Derives (.bound (bareBound bound)) (boundWritten s bound)
  | none, _ => .noBound
  | some bound, inside => .bound (Syntax.derives_elements_single (derives_written bound inside))

theorem derives_stepWritten : ∀ step : Option Node, optExpression step →
    Derives (.step (bareBound step)) (stepWritten s step)
  | none, _ => .noStep
  | some step, inside =>
    .step (s.isKind _) (.bound (Syntax.derives_elements_single (derives_written step inside)))

theorem derives_elementsWritten : ∀ nodes : List Node, allExpressions nodes →
    Derives (.elements (allBare nodes)) (elementsWritten s nodes)
  | [], _ => .noElements Syntax.areNewlines_nil
  | [node], inside => by
    have ⟨ofNode, _⟩ := Bool.and_eq_true_iff.mp inside
    exact Syntax.derives_elements_single (derives_written node ofNode)
  | node :: next :: rest, inside => by
    have ⟨ofNode, ofRest⟩ := Bool.and_eq_true_iff.mp inside
    have ofElement := (derives_written node ofNode).loosen node.level.disjunction_rank_le
    exact .element Syntax.areNewlines_nil ofElement s.isSeparator_comma
      (derives_elementsWritten (next :: rest) ofRest)

theorem derives_entriesWritten : ∀ entries : List (Token × Node), valuesExpressions entries →
    Derives (.entries (entriesBare entries)) (entriesWritten s entries)
  | [], _ => .noEntries Syntax.areNewlines_nil
  | [(key, node)], inside => by
    have ⟨first, _⟩ := Bool.and_eq_true_iff.mp inside
    have ⟨isKey, ofNode⟩ := Bool.and_eq_true_iff.mp first
    have ofEntry := s.derives_entry (by simpa using isKey) (derives_written node ofNode)
    exact .lastEntry Syntax.areNewlines_nil ofEntry
  | (key, node) :: next :: rest, inside => by
    have ⟨first, ofRest⟩ := Bool.and_eq_true_iff.mp inside
    have ⟨isKey, ofNode⟩ := Bool.and_eq_true_iff.mp first
    have ofEntry := s.derives_entry (by simpa using isKey) (derives_written node ofNode)
    exact .entry Syntax.areNewlines_nil ofEntry s.isSeparator_comma
      (derives_entriesWritten (next :: rest) ofRest)

end

end Node

/-! ### Reading what is written -/

namespace Syntax

/-- The tokens of an expression are read up to their end, as the tree that they were written for. -/
theorem expression_run_written (s : Spelling) {ending : Token} (isEnd : ending.kind = .eof)
    {n : Node} (isExpression : n.isExpression) :
    ∃ m, expression.run (streamOf ending (n.written s)) = (.ok m, streamOf ending []) ∧
      m.bare = n.bare := by
  have derived := (n.derives_written s isExpression).loosen n.level.disjunction_rank_le
  have ends : continues (headKind ([] : List Token)) < Level.disjunction.rank := by decide
  let depth := (streamOf ending (n.written s)).rest.length + 2
  have enough : (n.written s).length ≤ depth := by
    unfold depth
    cases n.written s with
    | nil => exact Nat.zero_le _
    | cons _ rest => exact Nat.le_succ (rest.length + 1)
  have parses := Parser.completes isEnd derived depth enough []
    (ends.trans_le Level.disjunction.rank_le_reach)
  have ⟨m, ran, same⟩ := parses.reads isEnd ends (by decide)
  refine ⟨m, ?_, same⟩
  rw [expression, withNesting, Parser.run_bind, Parser.run_get]
  rw [List.append_nil] at ran
  exact ran

def Spelling.blank : Spelling where
  mark k := ⟨k, "", .absent, {}⟩
  isKind _ := rfl

/-- The tree of `-(a + 1) ** -1`. -/
def signedPower : Node :=
  let one := Node.leaf ⟨.integer, "1", .int 1, {}⟩
  let sum := Node.binary .add (.leaf ⟨.word, "a", .text "a", {}⟩) one
  .unary .minus (.binary .power sum (.unary .minus one {})) {}

theorem expression_run_written_signedPower :
    (signedPower.written .blank).map (·.kind) =
        [.minus, .leftParenthesis, .word, .plus, .integer, .rightParenthesis, .power, .minus,
          .integer] ∧
      ∃ m, expression.run (streamOf ⟨.eof, "", .absent, {}⟩ (signedPower.written .blank)) =
        (.ok m, streamOf ⟨.eof, "", .absent, {}⟩ []) ∧ m.bare = signedPower.bare :=
  ⟨by decide, expression_run_written .blank rfl (by decide)⟩

end Syntax

end LazyConfig
