import LazyConfig.Proofs.Syntax.Grammar

/-!
# First tokens and following tokens

Which tokens a phrase may start with, and behind which tokens an expression of a level does not end.
Both are told by rank: a token goes on with expressions down to one level, and starts expressions up
to one level.
-/

namespace LazyConfig.Syntax

open Token (Kind)

/-- The kind of the first token, which is the end if there is none. -/
def headKind : List Token → Kind
  | [] => .eof
  | token :: _ => token.kind

@[simp] theorem headKind_cons (token : Token) (rest : List Token) :
    headKind (token :: rest) = token.kind := rfl

theorem headKind_append {tokens : List Token} (rest : List Token) (some : tokens ≠ []) :
    headKind (tokens ++ rest) = headKind tokens := by
  cases tokens with
  | nil => contradiction
  | cons => rfl

/-! ### What goes on with an expression -/

/-- The rank of the level at which a token goes on with an expression. -/
def continues (k : Kind) : Nat :=
  if k = .string then 14
  else if startsTrailer k then Level.primary.rank
  else if startsComparison k then Level.comparison.rank
  else ((InfixOp.ofKind? k).map (·.level.rank)).getD 0

/-- An operator goes on with what stands on its left. -/
theorem continues_kind {op : InfixOp} (chains : op.level.associatesLeft) :
    continues op.kind = op.level.rank := by
  cases op <;> first | contradiction | rfl

theorem at?_eq_none {level : Level} {k : Kind} (chains : level.associatesLeft)
    (ends : continues k < level.rank) : InfixOp.at? level k = none := by
  cases found : InfixOp.at? level k with
  | none => rfl
  | some op =>
    obtain ⟨rfl, rfl⟩ := InfixOp.eq_of_at? found
    exact absurd (continues_kind chains) (Nat.ne_of_lt ends)

theorem continues_of_startsComparison {k : Kind} (starts : startsComparison k) :
    continues k = Level.comparison.rank := by
  cases k <;> first | contradiction | rfl

theorem continues_of_startsTrailer {k : Kind} (starts : startsTrailer k) :
    continues k = Level.primary.rank := by
  cases k <;> first | contradiction | rfl

/-- No token goes on with a sign: what does not go on with a power does not either. -/
theorem continues_lt_sign {k : Kind} (ends : continues k < Level.power.rank) :
    continues k < Level.sign.rank := by
  cases k <;> revert ends <;> decide

/-- The tokens that stand behind a body, an entry or an expression in brackets go on with nothing. -/
theorem continues_of_isSeparator {k : Kind} (separates : isSeparator k) : continues k = 0 := by
  cases k <;> first | contradiction | rfl

theorem continues_of_endsBody {k : Kind} (ends : endsBody k) : continues k = 0 := by
  cases k <;> first | contradiction | rfl

/-- The levels whose parsers are loops, for which one more operand may follow. -/
def Level.repeats (level : Level) : Bool := level.associatesLeft || level = .primary

/-- What goes on at a lower rank than this stands behind an expression of the level. -/
def Level.reach (level : Level) : Nat := if level.repeats then level.rank + 1 else level.rank

theorem Level.rank_le_reach (level : Level) : level.rank ≤ level.reach := by
  unfold Level.reach
  split <;> omega

theorem Level.reach_le (level : Level) : level.reach ≤ level.rank + 1 := by
  unfold Level.reach
  split <;> omega

/-! ### What starts an expression -/

/-- The rank of the tightest level at which a token starts an expression. -/
def opens (k : Kind) : Nat :=
  if k = .not then Level.negation.rank
  else if (PrefixOp.sign? k).isSome then Level.sign.rank
  else if startsExpression k then Level.primary.rank
  else 0

theorem startsExpression_of_opens {k : Kind} {level : Level} (starts : level.rank ≤ opens k) :
    startsExpression k := by
  have positive : 0 < level.rank := by cases level <;> decide
  have opened : 0 < opens k := Nat.lt_of_lt_of_le positive starts
  cases k <;> first | rfl | exact absurd opened (by decide)

theorem opens_prefix (op : PrefixOp) : opens op.kind = op.level.rank := by
  cases op <;> rfl

theorem opens_value {k : Kind} (isValue : startsValue k) : opens k = Level.primary.rank := by
  cases k <;> first | contradiction | rfl

theorem not_isNot_of_opens {k : Kind} (starts : Level.comparison.rank ≤ opens k) : k ≠ .not := by
  rintro rfl
  exact absurd starts (by decide)

theorem sign?_eq_none_of_opens {k : Kind} (starts : Level.power.rank ≤ opens k) :
    PrefixOp.sign? k = none := by
  cases k <;> first | rfl | exact absurd starts (by decide)

theorem InfixOp.rank_le_left (op : InfixOp) : op.level.rank ≤ op.left.rank := by
  cases op <;> decide

/-- The first token of a phrase that cannot be empty tells what it is. -/
def Phrase.StartsWith : Phrase → List Token → Prop
  | .expression level _, tokens =>
    ∃ first rest, tokens = first :: rest ∧ level.rank ≤ opens first.kind
  | .enclosed _, tokens =>
    ∃ first rest, tokens = first :: rest ∧ (first.kind = .leftBracket ∨ first.kind = .leftCurly)
  | .entry _, tokens => ∃ first rest, tokens = first :: rest ∧ startsKey first.kind
  | _, _ => True

theorem Strings.head {tokens : List Token} {t : Token} (areStrings : Strings tokens t) :
    ∃ first rest, tokens = first :: rest ∧ first.kind = .string := by
  cases areStrings with
  | joined all join => exact ⟨_, _, rfl, all _ (by simp)⟩

theorem Key.head {tokens : List Token} {key : Token} (isKey : Key tokens key) :
    ∃ first rest, tokens = first :: rest ∧ startsKey first.kind := by
  cases isKey with
  | word isWord => exact ⟨_, _, rfl, by simp [startsKey, isWord]⟩
  | strings areStrings =>
    obtain ⟨first, rest, rfl, isString⟩ := areStrings.head
    exact ⟨first, rest, rfl, by simp [startsKey, isString]⟩

theorem Derives.startsWith {phrase : Phrase} {tokens : List Token}
    (derived : Derives phrase tokens) : phrase.StartsWith tokens := by
  induction derived with
  | value isValue => exact ⟨_, _, rfl, Nat.le_of_eq (opens_value isValue).symm⟩
  | strings areStrings =>
    obtain ⟨first, rest, rfl, isString⟩ := areStrings.head
    exact ⟨first, rest, rfl, by rw [isString]; decide⟩
  | enclosed ofContainer ih =>
    obtain ⟨first, rest, rfl, bracket | curly⟩ := ih
    · exact ⟨first, rest, rfl, by rw [bracket]; decide⟩
    · exact ⟨first, rest, rfl, by rw [curly]; decide⟩
  | reference isSigil => exact ⟨_, _, rfl, by rw [isSigil]; decide⟩
  | parentheses opens => exact ⟨_, _, rfl, by rw [opens]; decide⟩
  | member ofBase isDot isWord ih =>
    obtain ⟨first, rest, rfl, starts⟩ := ih
    exact ⟨first, _, rfl, starts⟩
  | index ofBase _ _ _ ih =>
    obtain ⟨first, rest, rfl, starts⟩ := ih
    exact ⟨first, _, rfl, starts⟩
  | slice ofBase _ _ _ _ _ _ ih =>
    obtain ⟨first, rest, rfl, starts⟩ := ih
    exact ⟨first, _, rfl, starts⟩
  | unary isMark => exact ⟨_, _, rfl, Nat.le_of_eq (by rw [isMark, opens_prefix])⟩
  | @binary op _ _ _ _ _ areMarks ofLeft ofRight ih =>
    obtain ⟨first, rest, rfl, starts⟩ := ih
    exact ⟨first, _, rfl, Nat.le_trans op.rank_le_left starts⟩
  | tighter tighter ofOperand ih =>
    obtain ⟨first, rest, rfl, starts⟩ := ih
    refine ⟨first, rest, rfl, ?_⟩
    have deeper := Level.rank_of_tighter? tighter
    omega
  | list opens => exact ⟨_, _, rfl, .inl opens⟩
  | mapping opens => exact ⟨_, _, rfl, .inr opens⟩
  | keyed ofKey =>
    obtain ⟨first, rest, rfl, starts⟩ := ofKey.head
    exact ⟨first, _, rfl, starts⟩
  | noElements | lastElement | element | noEntries | lastEntry | entry | noBound | bound
  | noStep | step => trivial

/-- An expression is not empty, and starts with a token that starts one. -/
theorem Derives.starts {level : Level} {tree : Node} {tokens : List Token}
    (derived : Derives (.expression level tree) tokens) (rest : List Token) :
    level.rank ≤ opens (headKind (tokens ++ rest)) := by
  obtain ⟨first, more, rfl, starts⟩ := derived.startsWith
  exact starts

theorem Derives.length_pos {level : Level} {tree : Node} {tokens : List Token}
    (derived : Derives (.expression level tree) tokens) : 0 < tokens.length := by
  obtain ⟨first, more, rfl, starts⟩ := derived.startsWith
  exact Nat.succ_pos _

end LazyConfig.Syntax
