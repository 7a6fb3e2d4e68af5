import LazyConfig.Token.Basic

/-!
# Operators and their levels

Operators bind at levels. From the loosest to the tightest: `or`, `and`, `not`, one comparison,
`|`, `^`, `&`, shifts, sums, products, signs, powers, and primaries. The levels with infix operators
associate to the left, but for a power, which takes a signed operand on its right.
-/

namespace LazyConfig.Syntax

open Token (Kind)

inductive Level where
  | disjunction | conjunction | negation | comparison | bitOr | bitXor | bitAnd
  | shift | sum | product | sign | power | primary
deriving DecidableEq, Repr, Inhabited

/-- The operators before their operand; `located` includes the file that the operand names. -/
inductive PrefixOp where
  | not | minus | plus | complement | located
deriving DecidableEq, Repr

namespace PrefixOp

def kind : PrefixOp → Kind
  | .not => .not
  | .minus => .minus
  | .plus => .plus
  | .complement => .bitwiseComplement
  | .located => .at

/-- The operators at the level of signs. -/
def sign? : Kind → Option PrefixOp
  | .minus => some .minus
  | .plus => some .plus
  | .bitwiseComplement => some .complement
  | .at => some .located
  | _ => none

end PrefixOp

/-- The operators between two operands. -/
inductive InfixOp where
  | or | and
  | less | lessEqual | greater | greaterEqual | equal | unequal | altUnequal
  | is | isNot | isIn | notIn
  | bitOr | bitXor | bitAnd | shiftLeft | shiftRight
  | add | subtract | multiply | divide | intDivide | modulo | power
deriving DecidableEq, Repr

namespace InfixOp

def kind : InfixOp → Kind
  | .or => .or
  | .and => .and
  | .less => .lessThan
  | .lessEqual => .lessThanOrEqual
  | .greater => .greaterThan
  | .greaterEqual => .greaterThanOrEqual
  | .equal => .equal
  | .unequal => .unequal
  | .altUnequal => .altUnequal
  | .is => .is
  | .isNot => .isNot
  | .isIn => .in
  | .notIn => .notIn
  | .bitOr => .bitwiseOr
  | .bitXor => .bitwiseXor
  | .bitAnd => .bitwiseAnd
  | .shiftLeft => .leftShift
  | .shiftRight => .rightShift
  | .add => .plus
  | .subtract => .minus
  | .multiply => .star
  | .divide => .slash
  | .intDivide => .slashSlash
  | .modulo => .modulo
  | .power => .power

def all : List InfixOp :=
  [.or, .and, .less, .lessEqual, .greater, .greaterEqual, .equal, .unequal, .altUnequal, .is,
   .isNot, .isIn, .notIn, .bitOr, .bitXor, .bitAnd, .shiftLeft, .shiftRight, .add, .subtract,
   .multiply, .divide, .intDivide, .modulo, .power]

def ofKind? (k : Kind) : Option InfixOp := all.find? (·.kind = k)

def level : InfixOp → Level
  | .or => .disjunction
  | .and => .conjunction
  | .less | .lessEqual | .greater | .greaterEqual | .equal | .unequal | .altUnequal
  | .is | .isNot | .isIn | .notIn => .comparison
  | .bitOr => .bitOr
  | .bitXor => .bitXor
  | .bitAnd => .bitAnd
  | .shiftLeft | .shiftRight => .shift
  | .add | .subtract => .sum
  | .multiply | .divide | .intDivide | .modulo => .product
  | .power => .power

/-- The operator of a level that a token of the given kind is. -/
def at? (level : Level) (k : Kind) : Option InfixOp :=
  (ofKind? k).filter (·.level = level)

theorem mem_all (op : InfixOp) : op ∈ all := by cases op <;> decide

theorem at?_level_kind (op : InfixOp) : at? op.level op.kind = some op := by cases op <;> rfl

/-- An operator of a level is found by its own kind only. -/
theorem eq_of_at? {level : Level} {k : Kind} {op : InfixOp} (found : at? level k = some op) :
    op.level = level ∧ op.kind = k := by
  obtain ⟨known, same⟩ := Option.filter_eq_some_iff.mp found
  have kinds := List.find?_some known
  exact ⟨by simpa using same, by simpa using kinds⟩

theorem ofKind?_kind (op : InfixOp) : ofKind? op.kind = some op := by cases op <;> rfl

end InfixOp

end LazyConfig.Syntax
