import LazyConfig.Proofs.Syntax.Reading

/-!
# What is derived is parsed

On the tokens of a phrase, with tokens behind them that do not go on with it, the parser of the
phrase takes these tokens and makes the phrase's tree. The levels whose parsers are loops come to
their loop on what follows: their operators stand on the right of what has been taken.
-/

namespace LazyConfig.Syntax

open Token (Stream Kind)

namespace Parser

variable {ending : Token} {tokens before behind last rest : List Token} {nested : Nested}
  {tree : Node} {start stop step : Option Node} (isEnd : ending.kind = .eof)

include isEnd

/-! ### Atoms -/

theorem reads_atom_leaf {t : Token} (reads : Reads ending value tokens rest (·.bare = t))
    (isValue : startsValue (headKind tokens)) :
    Reads ending (atom nested) tokens rest (·.bare = .leaf t) := by
  refine reads_kind isEnd ?_
  have front : startsValue (headKind (tokens ++ rest)) := starts_append rest rfl isValue
  have leaf : Reads ending (do return Node.leaf (← value)) tokens rest (·.bare = .leaf t) := by
    refine reads.andThen fun found isLeaf => reads_pure ?_
    rw [Node.bare, isLeaf]
  generalize headKind (tokens ++ rest) = k at front
  cases k <;> first | contradiction | exact leaf

theorem reads_atom_enclosed (starts : headKind tokens = .leftBracket ∧
      Reads ending (list nested) tokens rest (·.bare = tree) ∨
    headKind tokens = .leftCurly ∧ Reads ending (mapping nested) tokens rest (·.bare = tree)) :
    Reads ending (atom nested) tokens rest (·.bare = tree) := by
  have some (k : Kind) (isKind : headKind tokens = k) (notEnd : k ≠ .eof) :
      headKind (tokens ++ rest) = k := by
    cases tokens with
    | nil => exact absurd isKind.symm notEnd
    | cons => exact isKind
  refine reads_kind isEnd ?_
  rcases starts with ⟨bracket, reads⟩ | ⟨curly, reads⟩
  · rw [some _ bracket (by decide)]
    exact reads
  · rw [some _ curly (by decide)]
    exact reads

theorem reads_reference {sigil opening closing : Token} {path : Node}
    (isSigil : sigil.kind = .dollar) (opens : opening.kind = .leftCurly)
    (closes : closing.kind = .rightCurly)
    (reads : Reads ending (nested .primary) tokens (closing :: rest) (·.bare = path)) :
    Reads ending (atom nested) (sigil :: opening :: tokens ++ [closing]) rest
      (·.bare = .reference path {}) := by
  refine reads_kind isEnd ?_
  simp only [List.cons_append, headKind_cons, isSigil]
  refine reads_take (reads_expect opens ?_)
  refine reads.bind (v := [closing]) fun node isPath => ?_
  refine reads_expect closes (reads_pure ?_)
  rw [Node.bare, isPath]

theorem reads_parentheses {opening closing : Token} (opens : opening.kind = .leftParenthesis)
    (closes : closing.kind = .rightParenthesis)
    (reads : Reads ending (nested .disjunction) tokens (closing :: rest) (·.bare = tree)) :
    Reads ending (atom nested) (opening :: tokens ++ [closing]) rest (·.bare = tree) := by
  refine reads_kind isEnd ?_
  simp only [List.cons_append, headKind_cons, opens]
  refine reads_advance isEnd ?_
  refine reads.bind (v := [closing]) fun node isTree => ?_
  exact reads_expect closes (reads_pure isTree)

/-! ### Trailers -/

/-- A bound of a slice that is not left out is the body of a list of one element. -/
def ReadsBound (ending : Token) (nested : Nested) (tokens rest : List Token) : Option Node → Prop
  | none => tokens = []
  | some tree => ReadsElements ending nested tokens rest [tree]

omit isEnd in
/-- A bound does not start with what stands behind one. -/
theorem ReadsBound.head (bound : ReadsBound ending nested tokens rest (some tree))
    (more : List Token) : ¬EndsElements (headKind (tokens ++ more)) := by
  obtain ⟨newlines, core, rfl, areNewlines, front, -⟩ := bound
  have starts : startsExpression (headKind core) := front.resolve_left (by simp)
  intro ends
  cases newlines with
  | nil =>
    have stops : startsExpression (headKind (core ++ more)) = false := ends.kinds.1
    exact absurd (starts_append more rfl starts) (by simp [stops])
  | cons t newlines =>
    have isNewline : t.kind = .newline := areNewlines t (by simp)
    exact ends.kinds.2.2.1 isNewline

theorem reads_sliceElement (body : ReadsElements ending nested tokens rest [tree])
    (ends : EndsElements (headKind rest)) :
    Reads ending (sliceElement nested) tokens rest (·.bare = tree) := by
  refine (reads_listBody isEnd body ends).andThen fun (elements, span) same => ?_
  obtain ⟨element, rfl, isTree⟩ := List.map_eq_singleton_iff.mp same
  exact reads_pure isTree

/-- The last bound of a slice, with the colon before it. -/
def ReadsStep (ending : Token) (nested : Nested) (tokens rest : List Token)
    (step : Option Node) : Prop :=
  tokens = [] ∧ step = none ∨ ∃ colon more, tokens = colon :: more ∧ colon.kind = .colon ∧
    ReadsBound ending nested more rest step

theorem reads_sliceStep (isStep : ReadsStep ending nested tokens rest step)
    (closes : headKind rest = .rightBracket) :
    Reads ending (sliceStep nested) tokens rest (·.map Node.bare = step) := by
  refine reads_kind isEnd ?_
  rcases isStep with ⟨rfl, rfl⟩ | ⟨colon, more, rfl, isColon, bound⟩
  · have notColon : headKind rest ≠ .colon := by simp [closes]
    rw [List.nil_append, if_pos notColon]
    exact reads_pure rfl
  · rw [List.cons_append, headKind_cons, if_neg (not_not.mpr isColon)]
    refine reads_advance isEnd ?_
    cases step with
    | none =>
      obtain rfl : more = [] := bound
      simp only [List.nil_append, closes, if_true]
      exact reads_pure rfl
    | some tree =>
      have notEnd : headKind (more ++ rest) ≠ .rightBracket := fun bracket =>
        bound.head rest (.inl bracket)
      simp only [notEnd, if_false]
      refine (reads_sliceElement isEnd bound (.inl closes)).andThen fun node isTree => ?_
      exact reads_pure (congrArg some isTree)

theorem reads_sliceRest {opening colon closing : Token} {first : Option Node}
    (closes : closing.kind = .rightBracket) (isFirst : first.map Node.bare = start)
    (isStop : ReadsBound ending nested behind (last ++ closing :: rest) stop)
    (isStep : ReadsStep ending nested last (closing :: rest) step) :
    Reads ending (sliceRest nested opening first) (colon :: behind ++ last ++ [closing]) rest
      fun t => ∀ base, (t.apply base).bare = .slice base.bare ⟨start, stop, step, {}⟩ := by
  have ends : EndsElements (headKind (last ++ closing :: rest)) := by
    rcases isStep with ⟨rfl, -⟩ | ⟨colon, more, rfl, isColon, -⟩
    · exact .inl closes
    · exact .inr isColon
  rw [List.append_assoc, List.cons_append]
  refine reads_advance isEnd ?_
  have finish (found : Option Node) (isFound : found.map Node.bare = stop) :
      Reads ending (do
        let step ← sliceStep nested
        let closing ← expect .rightBracket
        return Trailer.slice
          ⟨first, found, step, { opening.span with stop := closing.span.stop }⟩)
        (last ++ [closing]) rest
        fun t => ∀ base, (t.apply base).bare = .slice base.bare ⟨start, stop, step, {}⟩ := by
    refine Reads.bind (reads_sliceStep isEnd isStep closes) (v := [closing])
      fun made isMade => ?_
    refine reads_expect closes (reads_pure fun base => ?_)
    simp [Trailer.apply, Node.bare, Node.bareBounds, Node.bareBound_eq, isFirst, isFound, isMade]
  dsimp only
  cases stop with
  | none =>
    obtain rfl : behind = [] := isStop
    rw [if_pos (by simpa [EndsElements, or_comm] using ends)]
    exact finish none rfl
  | some tree =>
    have notEnd := isStop.head (last ++ closing :: rest)
    rw [if_neg (by simpa [EndsElements, or_comm] using notEnd)]
    have isStop : ReadsElements ending nested behind (last ++ [closing] ++ rest) [tree] := by
      simpa [ReadsBound] using isStop
    have stopping : Reads ending (some <$> sliceElement nested) behind (last ++ [closing] ++ rest)
        (·.map Node.bare = some tree) :=
      (reads_sliceElement isEnd isStop (by simpa using ends)).map fun _ isTree =>
        congrArg some isTree
    exact stopping.bind finish

theorem reads_trailer {opening colon closing : Token} (opens : opening.kind = .leftBracket)
    (isColon : colon.kind = .colon) (closes : closing.kind = .rightBracket)
    (isStart : ReadsBound ending nested before
      (colon :: behind ++ last ++ [closing] ++ rest) start)
    (isStop : ReadsBound ending nested behind (last ++ closing :: rest) stop)
    (isStep : ReadsStep ending nested last (closing :: rest) step) :
    Reads ending (trailer nested) (opening :: before ++ colon :: behind ++ last ++ [closing]) rest
      fun t => ∀ base, (t.apply base).bare = .slice base.bare ⟨start, stop, step, {}⟩ := by
  have shape : opening :: before ++ colon :: behind ++ last ++ [closing] =
      opening :: (before ++ (colon :: behind ++ last ++ [closing])) := by simp
  rw [shape]
  refine reads_kind isEnd ?_
  rw [List.cons_append, headKind_cons, if_neg (not_not.mpr opens)]
  refine reads_take (reads_kind isEnd ?_)
  cases start with
  | none =>
    obtain rfl : before = [] := isStart
    simp only [List.nil_append, List.cons_append, headKind_cons, isColon, if_true]
    exact reads_sliceRest isEnd closes rfl isStop isStep
  | some tree =>
    have notColon : headKind (before ++ (colon :: behind ++ last ++ [closing]) ++ rest) ≠ .colon := by
      intro isColon
      rw [List.append_assoc] at isColon
      exact isStart.head _ (.inr isColon)
    rw [if_neg notColon]
    refine (reads_sliceElement isEnd isStart (.inr isColon)).bind fun node isTree =>
      reads_kind isEnd ?_
    simp only [List.cons_append, headKind_cons, isColon, if_true]
    exact reads_sliceRest isEnd closes (congrArg some isTree) isStop isStep

theorem reads_trailer_index {opening closing : Token} (opens : opening.kind = .leftBracket)
    (closes : closing.kind = .rightBracket)
    (body : ReadsElements ending nested tokens (closing :: rest) [tree]) :
    Reads ending (trailer nested) (opening :: tokens ++ [closing]) rest
      fun t => ∀ base, (t.apply base).bare = .index base.bare tree := by
  refine reads_kind isEnd ?_
  rw [List.cons_append, List.cons_append, headKind_cons, if_neg (not_not.mpr opens)]
  refine reads_take (reads_kind isEnd ?_)
  have bound : ReadsBound ending nested tokens (closing :: rest) (some tree) := body
  have notColon : headKind (tokens ++ [closing] ++ rest) ≠ .colon := by
    intro isColon
    rw [List.append_assoc] at isColon
    exact bound.head _ (.inr isColon)
  rw [if_neg notColon]
  refine (reads_sliceElement isEnd body (.inl closes)).bind fun node isTree => reads_kind isEnd ?_
  have notColon : closing.kind ≠ .colon := by simp [closes]
  rw [List.singleton_append, headKind_cons, if_neg notColon]
  refine reads_expect closes (reads_pure fun base => ?_)
  rw [Trailer.apply, Node.bare, isTree]

theorem reads_trailer_member {dot name : Token} (isDot : dot.kind = .dot)
    (isWord : name.kind = .word) :
    Reads ending (trailer nested) [dot, name] rest
      fun t => ∀ base, (t.apply base).bare = .member base.bare name.bare := by
  refine reads_kind isEnd ?_
  have notBracket : dot.kind ≠ .leftBracket := by simp [isDot]
  rw [List.cons_append, headKind_cons, if_pos notBracket]
  refine reads_expect isDot (reads_expect isWord (reads_pure fun base => ?_))
  rw [Trailer.apply, Node.bare]

/-- A trailer behind a primary is a turn of the primary's loop. -/
theorem reads_trailerTurn {t : Token} {bigger : Node} {node : Node}
    (starts : startsTrailer t.kind)
    (reads : Reads ending (trailer nested) (t :: tokens) rest
      fun trailer => (trailer.apply node).bare = bigger) :
    Reads ending (trailerTurn nested node) (t :: tokens) rest fun result =>
      ∃ node, result = .inl node ∧ node.bare = bigger := by
  refine reads_kind isEnd ?_
  simp only [List.cons_append, headKind_cons, starts, if_true]
  exact reads.andThen fun trailer isBigger => reads_pure ⟨_, rfl, isBigger⟩

theorem reads_trailerTurn_ends (ends : continues (headKind rest) < Level.primary.rank)
    (node : Node) : Reads ending (trailerTurn nested node) [] rest (· = .inr node) := by
  refine reads_kind isEnd ?_
  have stops : startsTrailer (headKind rest) = false := by
    by_contra starts
    have goesOn := continues_of_startsTrailer (by simpa using starts)
    omega
  simp only [List.nil_append, stops, Bool.false_eq_true, if_false]
  exact reads_pure rfl

/-! ### Operators -/

theorem reads_chainTurn {op : InfixOp} {mark : Token} {operand : Parser Node} {left right : Node}
    (isMark : mark.kind = op.kind)
    (reads : Reads ending operand tokens rest (·.bare = right)) (node : Node)
    (isLeft : node.bare = left) :
    Reads ending (chainTurn op.level operand node) (mark :: tokens) rest fun result =>
      ∃ node, result = .inl node ∧ node.bare = .binary op left right := by
  refine reads_kind isEnd ?_
  simp only [List.cons_append, headKind_cons, isMark, InfixOp.at?_level_kind]
  refine reads_advance isEnd (reads.andThen fun found isRight => ?_)
  exact reads_pure ⟨_, rfl, by rw [Node.bare, isLeft, isRight]⟩

theorem reads_chainTurn_ends {level : Level} {operand : Parser Node}
    (chains : level.associatesLeft) (ends : continues (headKind rest) < level.rank) (node : Node) :
    Reads ending (chainTurn level operand node) [] rest (· = .inr node) := by
  refine reads_kind isEnd ?_
  simp only [List.nil_append, at?_eq_none chains ends]
  exact reads_pure rfl

omit isEnd in
/-- A comparison operator is written with one token, or with two of which the first is `is` or
`not`. -/
theorem marks_of_comparison {op : InfixOp} {marks : List Token} (isComparison : op.level = .comparison)
    (areMarks : marks.map (·.kind) = op.kinds) :
    (∃ mark, marks = [mark] ∧ mark.kind = op.kind ∧ startsComparison op.kind ∧ op.kind ≠ .not) ∨
    (∃ first second, marks = [first, second] ∧ first.kind = .is ∧ second.kind = .not ∧ op = .isNot) ∨
    ∃ first second, marks = [first, second] ∧ first.kind = .not ∧ second.kind = .in ∧ op = .notIn := by
  cases op <;> first | contradiction | skip
  case isNot =>
    obtain ⟨first, rest, rfl, isFirst, others⟩ := List.map_eq_cons_iff.mp areMarks
    obtain ⟨second, rest, rfl, isSecond, others⟩ := List.map_eq_cons_iff.mp others
    obtain rfl := List.map_eq_nil_iff.mp others
    exact .inr (.inl ⟨first, second, rfl, isFirst, isSecond, rfl⟩)
  case notIn =>
    obtain ⟨first, rest, rfl, isFirst, others⟩ := List.map_eq_cons_iff.mp areMarks
    obtain ⟨second, rest, rfl, isSecond, others⟩ := List.map_eq_cons_iff.mp others
    obtain rfl := List.map_eq_nil_iff.mp others
    exact .inr (.inr ⟨first, second, rfl, isFirst, isSecond, rfl⟩)
  all_goals
    obtain ⟨mark, rfl, isMark⟩ := List.map_eq_singleton_iff.mp areMarks
    exact .inl ⟨mark, rfl, isMark, rfl, by decide⟩

theorem reads_comparisonKind {op : InfixOp} {marks : List Token}
    (isComparison : op.level = .comparison) (areMarks : marks.map (·.kind) = op.kinds)
    (notNot : headKind rest ≠ .not) : Reads ending comparisonKind marks rest (· = op.kind) := by
  rcases marks_of_comparison isComparison areMarks with ⟨mark, rfl, isMark, -, single⟩ |
    ⟨first, second, rfl, isFirst, isSecond, rfl⟩ | ⟨first, second, rfl, isFirst, isSecond, rfl⟩
  · refine reads_take ?_
    split
    · rename_i isIs
      refine reads_kind isEnd ?_
      rw [List.nil_append, if_neg notNot]
      exact reads_pure (isIs.symm.trans isMark)
    · rename_i isNot
      exact absurd (isMark.symm.trans isNot) single
    · exact reads_pure isMark
  · refine reads_take ?_
    simp only [isFirst]
    refine reads_kind isEnd ?_
    rw [List.singleton_append, headKind_cons, if_pos isSecond]
    exact reads_advance isEnd (reads_pure rfl)
  · refine reads_take ?_
    simp only [isFirst]
    exact reads_expect isSecond (reads_pure rfl)

theorem reads_comparison {op : InfixOp} {marks : List Token} {left right : Node}
    (isComparison : op.level = .comparison) (areMarks : marks.map (·.kind) = op.kinds)
    (notNot : headKind (behind ++ rest) ≠ .not)
    (ofLeft : Reads ending (bitOr nested) before (marks ++ behind ++ rest) (·.bare = left))
    (ofRight : Reads ending (bitOr nested) behind rest (·.bare = right)) :
    Reads ending (comparison nested) (before ++ marks ++ behind) rest
      (·.bare = .binary op left right) := by
  have starts : startsComparison (headKind (marks ++ behind ++ rest)) := by
    rcases marks_of_comparison isComparison areMarks with ⟨mark, rfl, isMark, starts, -⟩ |
      ⟨first, second, rfl, isFirst, -⟩ | ⟨first, second, rfl, isFirst, -⟩
    · simpa [isMark] using starts
    · simp [isFirst, startsComparison]
    · simp [isFirst, startsComparison]
  rw [List.append_assoc]
  refine ofLeft.bind fun first isFirst => reads_kind isEnd ?_
  simp only [starts, Bool.not_true, Bool.false_eq_true, if_false]
  refine (reads_comparisonKind isEnd isComparison areMarks notNot).bind fun found isFound => ?_
  rw [isFound, InfixOp.ofKind?_kind]
  exact ofRight.andThen fun second isSecond => reads_pure (by rw [Node.bare, isFirst, isSecond])

/-- Without an operator, a comparison is what stands on its left. -/
theorem reads_comparison_single (ends : continues (headKind rest) < Level.comparison.rank)
    (reads : Reads ending (bitOr nested) tokens rest (·.bare = tree)) :
    Reads ending (comparison nested) tokens rest (·.bare = tree) := by
  refine reads.andThen fun node isTree => reads_kind isEnd ?_
  have stops : startsComparison (headKind rest) = false := by
    by_contra starts
    have goesOn := continues_of_startsComparison (by simpa using starts)
    omega
  simp only [List.nil_append, stops, Bool.not_false, if_true]
  exact reads_pure isTree

theorem reads_powerOf {mark : Token} {exponent : Parser Node} {left right : Node}
    (isMark : mark.kind = .power)
    (ofLeft : Reads ending (primary nested) before (mark :: behind ++ rest) (·.bare = left))
    (ofRight : Reads ending exponent behind rest (·.bare = right)) :
    Reads ending (powerOf nested exponent) (before ++ mark :: behind) rest
      (·.bare = .binary .power left right) := by
  refine ofLeft.bind fun base isBase => reads_kind isEnd ?_
  rw [List.cons_append, headKind_cons, if_neg (not_not.mpr isMark)]
  refine reads_advance isEnd (ofRight.andThen fun found isFound => ?_)
  exact reads_pure (by rw [Node.bare, isBase, isFound])

theorem reads_powerOf_single {exponent : Parser Node}
    (ends : continues (headKind rest) < Level.power.rank)
    (reads : Reads ending (primary nested) tokens rest (·.bare = tree)) :
    Reads ending (powerOf nested exponent) tokens rest (·.bare = tree) := by
  refine reads.andThen fun node isTree => reads_kind isEnd ?_
  have stops : headKind rest ≠ .power := by
    rintro isPower
    rw [isPower] at ends
    exact absurd ends (by decide)
  rw [List.nil_append, if_pos stops]
  exact reads_pure isTree

/-! ### Levels -/

omit isEnd

/-- The parser of a level makes the tree of the tokens, whatever its budget is as long as it is
large enough. The levels that are loops come to their loop. -/
def Parses (ending : Token) (nested : Nested) (level : Level) (tokens rest : List Token)
    (tree : Node) : Prop :=
  match level with
  | .negation => ∀ budget : List Token, tokens.length < budget.length →
    Reads ending (negationWithin nested budget) tokens rest (·.bare = tree)
  | .comparison => Reads ending (comparison nested) tokens rest (·.bare = tree)
  | .sign => ∀ budget : List Token, tokens.length < budget.length →
    Reads ending (signWithin nested budget) tokens rest (·.bare = tree)
  | .power => ∀ budget : List Token, tokens.length ≤ budget.length →
    Reads ending (powerOf nested (signWithin nested budget)) tokens rest (·.bare = tree)
  | .primary => Resumes ending (trailerTurn nested) (primary nested) tokens rest tree
  | level => Resumes ending
    (chainTurn level (ofLevel nested (level.tighter?.getD .primary))) (ofLevel nested level)
      tokens rest tree

theorem run_get (s : Stream) : (get : Parser Stream).run s = (.ok s, s) := rfl

theorem run_negation (nested : Nested) (s : Stream) :
    (negation nested).run s = (negationWithin nested (s.next :: s.toList)).run s := by
  rw [negation, run_bind, run_get]

theorem run_sign (nested : Nested) (s : Stream) :
    (sign nested).run s = (signWithin nested (s.next :: s.toList)).run s := by
  rw [sign, run_bind, run_get]

include isEnd

/-- Where nothing goes on with an expression, its parser ends. The parser of powers is left out: it
only runs as a part of the one of signs. -/
theorem Parses.reads {level : Level} (parses : Parses ending nested level tokens rest tree)
    (ends : continues (headKind rest) < level.rank) (notPower : level ≠ .power) :
    Reads ending (ofLevel nested level) tokens rest (·.bare = tree) := by
  have enough : tokens.length < ((streamOf ending (tokens ++ rest)).next ::
      (streamOf ending (tokens ++ rest)).toList).length := by
    have turns := length_le_toList ending (tokens ++ rest)
    simp only [List.length_append, List.length_cons] at turns ⊢
    omega
  cases level with
  | negation =>
    obtain ⟨node, ran, isTree⟩ := parses _ enough
    exact ⟨node, (run_negation nested _).trans ran, isTree⟩
  | comparison => exact parses
  | sign =>
    obtain ⟨node, ran, isTree⟩ := parses _ enough
    exact ⟨node, (run_sign nested _).trans ran, isTree⟩
  | power => contradiction
  | primary => exact Resumes.stops parses (reads_trailerTurn_ends isEnd ends)
  | _ => exact Resumes.stops parses (reads_chainTurn_ends isEnd rfl ends)

omit isEnd in
theorem parses_chain {level : Level} (chains : level.associatesLeft) :
    Parses ending nested level tokens rest tree ↔ Resumes ending
      (chainTurn level (ofLevel nested (level.tighter?.getD .primary))) (ofLevel nested level)
        tokens rest tree := by
  cases level <;> first | contradiction | rfl

omit isEnd in
theorem ofLevel_chain {level tight : Level} (chains : level.associatesLeft)
    (tighter : level.tighter? = some tight) :
    ofLevel nested level =
      ofLevel nested tight >>= iterate (chainTurn level (ofLevel nested tight)) := by
  cases level <;> cases tighter <;> first | contradiction | rfl

omit isEnd in
/-- An operand of a chain comes to the chain's loop. -/
theorem parses_chain_operand {level tight : Level} (chains : level.associatesLeft)
    (tighter : level.tighter? = some tight)
    (reads : Reads ending (ofLevel nested tight) tokens rest (·.bare = tree)) :
    Parses ending nested level tokens rest tree := by
  rw [parses_chain chains, ofLevel_chain chains tighter, tighter]
  exact reads.resumes

/-- An operator of a chain and its operand are a turn of the chain's loop. -/
theorem parses_chain_operator {op : InfixOp} {mark : Token} {left right : Node}
    (chains : op.level.associatesLeft) (isMark : mark.kind = op.kind)
    (ofLeft : Parses ending nested op.level before (mark :: behind ++ rest) left)
    (ofRight : Reads ending (ofLevel nested op.right) behind rest (·.bare = right)) :
    Parses ending nested op.level (before ++ mark :: behind) rest (.binary op left right) := by
  have tighter := (InfixOp.operands_of_associatesLeft chains).2.1
  rw [parses_chain chains, tighter] at ofLeft ⊢
  exact ofLeft.again (reads_chainTurn isEnd isMark ofRight)

/-- A sign or a negation in front of its operand. -/
theorem parses_unary {op : PrefixOp} {mark : Token} {operand : Node} (isMark : mark.kind = op.kind)
    (parses : Parses ending nested op.level tokens rest operand) :
    Parses ending nested op.level (mark :: tokens) rest (.unary op operand {}) := by
  have signs (isSign : PrefixOp.sign? op.kind = some op)
      (parses : Parses ending nested .sign tokens rest operand) :
      Parses ending nested .sign (mark :: tokens) rest (.unary op operand {}) := by
    intro budget enough
    cases budget with
    | nil => exact absurd enough (by simp)
    | cons _ budget =>
      refine reads_kind isEnd ?_
      simp only [List.cons_append, headKind_cons, isMark, isSign]
      refine reads_take ((parses budget (Nat.lt_of_succ_lt_succ enough)).andThen fun found same => ?_)
      exact reads_pure (by rw [Node.bare, same])
  cases op with
  | not =>
    intro budget enough
    cases budget with
    | nil => exact absurd enough (by simp)
    | cons _ budget =>
      have isNot : ¬mark.kind ≠ .not := not_not.mpr isMark
      refine reads_kind isEnd ?_
      rw [List.cons_append, headKind_cons, if_neg isNot]
      refine reads_take ((parses budget (Nat.lt_of_succ_lt_succ enough)).andThen fun found same => ?_)
      exact reads_pure (by rw [Node.bare, same])
  | _ => exact signs rfl parses

/-! ### Derivations -/

omit isEnd in
/-- What there is to show about the tokens of a phrase: nested expressions may be as deep as there
are tokens. -/
def Completes (ending : Token) : Phrase → List Token → Prop
  | .expression level tree, tokens => ∀ depth, tokens.length ≤ depth → ∀ rest,
    continues (headKind rest) < level.reach → Parses ending (nest depth) level tokens rest tree
  | .enclosed tree, tokens => ∀ depth, tokens.length ≤ depth → ∀ rest,
    headKind tokens = .leftBracket ∧
        Reads ending (list (nest depth)) tokens rest (·.bare = tree) ∨
      headKind tokens = .leftCurly ∧
        Reads ending (mapping (nest depth)) tokens rest (·.bare = tree)
  | .elements trees, tokens => ∀ depth, tokens.length < depth → ∀ rest,
    EndsElements (headKind rest) → ReadsElements ending (nest depth) tokens rest trees
  | .entry item, tokens => ∀ depth, tokens.length < depth → ∀ rest,
    continues (headKind rest) = 0 →
      Reads ending (entry (nest depth)) tokens rest (bareEntry · = item)
  | .entries items, tokens => ∀ depth, tokens.length < depth → ∀ rest,
    endsBody (headKind rest) → ReadsEntries ending (nest depth) tokens rest items
  | .bound bound, tokens => ∀ depth, tokens.length < depth → ∀ rest,
    EndsElements (headKind rest) → ReadsBound ending (nest depth) tokens rest bound
  | .step bound, tokens => ∀ depth, tokens.length < depth → ∀ rest,
    headKind rest = .rightBracket → ReadsStep ending (nest depth) tokens rest bound

/-- Inside brackets, an expression is parsed by a parser for less nesting. -/
theorem Completes.inside {level : Level} {depth : Nat}
    (completes : Completes ending (.expression level tree) tokens) (notPower : level ≠ .power)
    (enough : tokens.length < depth) (ends : continues (headKind rest) = 0) :
    Reads ending (nest depth level) tokens rest (·.bare = tree) := by
  have positive : 0 < level.rank := by cases level <;> decide
  cases depth with
  | zero => exact absurd enough (Nat.not_lt_zero _)
  | succ depth =>
    refine (completes depth (Nat.le_of_lt_succ enough) rest ?_).reads isEnd ?_ notPower
    · exact ends ▸ positive.trans_le level.rank_le_reach
    · exact ends ▸ positive

theorem completes_tighter {level tight : Level} (tighter : level.tighter? = some tight)
    (derived : Derives (.expression tight tree) tokens)
    (completes : Completes ending (.expression tight tree) tokens) :
    Completes ending (.expression level tree) tokens := by
  intro depth enough rest ends
  have deeper := Level.rank_of_tighter? tighter
  have below : continues (headKind rest) < tight.rank := by
    have reach := level.reach_le
    omega
  have parses := completes depth enough rest (below.trans_le tight.rank_le_reach)
  have starts := derived.starts rest
  cases level with
  | negation =>
    cases tighter
    intro budget large
    cases budget with
    | nil => exact absurd large (by simp)
    | cons _ budget =>
      refine reads_kind isEnd ?_
      rw [if_pos (not_isNot_of_opens starts)]
      exact parses
  | comparison =>
    cases tighter
    exact reads_comparison_single isEnd ends (parses.reads isEnd below (by decide))
  | sign =>
    cases tighter
    intro budget large
    cases budget with
    | nil => exact absurd large (by simp)
    | cons _ budget =>
      refine reads_kind isEnd ?_
      rw [sign?_eq_none_of_opens starts]
      exact parses budget (Nat.le_of_lt_succ large)
  | power =>
    cases tighter
    intro budget large
    exact reads_powerOf_single isEnd ends (parses.reads isEnd below (by decide))
  | primary => cases tighter
  | _ =>
    refine parses_chain_operand rfl tighter (parses.reads isEnd below ?_)
    cases tighter
    decide

theorem completes_binary {op : InfixOp} {marks : List Token} {left right : Node}
    (areMarks : marks.map (·.kind) = op.kinds)
    (derived : Derives (.expression op.right right) behind)
    (ofLeft : Completes ending (.expression op.left left) before)
    (ofRight : Completes ending (.expression op.right right) behind) :
    Completes ending (.expression op.level (.binary op left right)) (before ++ marks ++ behind) := by
  intro depth enough rest ends
  simp only [List.length_append] at enough
  by_cases chains : op.level.associatesLeft
  · obtain ⟨isLeft, tighter, kinds⟩ := InfixOp.operands_of_associatesLeft chains
    obtain ⟨mark, rfl, isMark⟩ := List.map_eq_singleton_iff.mp (areMarks.trans kinds)
    have deeper := Level.rank_of_tighter? tighter
    have below : continues (headKind rest) < op.right.rank := by
      have reach := op.level.reach_le
      omega
    rw [List.append_assoc]
    refine parses_chain_operator isEnd chains isMark ?_ ?_
    · rw [← isLeft]
      refine ofLeft depth (by omega) _ ?_
      rw [List.cons_append, headKind_cons, isMark, continues_kind chains, isLeft, Level.reach,
        Level.repeats, chains]
      exact Nat.lt_succ_self _
    · refine (ofRight depth (by omega) rest (below.trans_le op.right.rank_le_reach)).reads
        isEnd below ?_
      cases op <;> first | contradiction | decide
  · cases level : op.level with
    | comparison =>
      have isLeft : op.left = .bitOr := by rw [InfixOp.left, level]
      have isRight : op.right = .bitOr := by rw [InfixOp.right, level]
      rw [isLeft] at ofLeft
      rw [isRight] at ofRight derived
      rw [level] at ends
      have notNot := not_isNot_of_opens
        ((by decide : Level.comparison.rank ≤ Level.bitOr.rank).trans (derived.starts rest))
      have marked : continues (headKind (marks ++ behind ++ rest)) = Level.comparison.rank := by
        rcases marks_of_comparison level areMarks with ⟨mark, rfl, isMark, starts, -⟩ |
          ⟨first, second, rfl, isFirst, -⟩ | ⟨first, second, rfl, isFirst, -⟩
        · exact (congrArg continues isMark).trans (continues_of_startsComparison starts)
        · exact congrArg continues isFirst
        · exact congrArg continues isFirst
      refine reads_comparison isEnd level areMarks notNot ?_ ?_
      · refine (ofLeft depth (by omega) _ ?_).reads isEnd ?_ (by decide)
        · rw [marked]
          decide
        · rw [marked]
          decide
      · refine (ofRight depth (by omega) rest ?_).reads isEnd ?_ (by decide)
        · exact ends.trans (by decide)
        · exact ends.trans (by decide)
    | power =>
      obtain rfl : op = .power := by cases op <;> first | contradiction | rfl
      obtain ⟨mark, rfl, isMark⟩ := List.map_eq_singleton_iff.mp areMarks
      intro budget large
      simp only [List.length_append, List.length_singleton] at large
      rw [List.append_assoc]
      refine reads_powerOf isEnd isMark ?_ ?_
      · refine (ofLeft depth (by omega) _ ?_).reads isEnd ?_ (by decide)
        · rw [List.cons_append, headKind_cons, isMark]
          decide
        · rw [List.cons_append, headKind_cons, isMark]
          decide
      · exact ofRight depth (by omega) rest (continues_lt_sign ends) budget (by omega)
    | _ => cases op <;> contradiction

omit isEnd in
/-- Primaries come to the loop over their trailers. -/
theorem completes_atom
    (reads : ∀ depth, tokens.length ≤ depth → ∀ rest, headKind rest ≠ .string →
      Reads ending (atom (nest depth)) tokens rest (·.bare = tree)) :
    Completes ending (.expression .primary tree) tokens := by
  intro depth enough rest ends
  have notString : headKind rest ≠ .string := by
    intro isString
    rw [isString] at ends
    exact absurd ends (by decide)
  exact (reads depth enough rest notString).resumes

theorem completes_trailer {t : Token} {base bigger : Node} (starts : startsTrailer t.kind)
    (ofBase : Completes ending (.expression .primary base) before)
    (reads : ∀ depth, (before ++ t :: tokens).length ≤ depth → ∀ rest node, node.bare = base →
      Reads ending (trailer (nest depth)) (t :: tokens) rest
        fun trailer => (trailer.apply node).bare = bigger) :
    Completes ending (.expression .primary bigger) (before ++ t :: tokens) := by
  intro depth enough rest ends
  have room : before.length ≤ depth := by
    simp only [List.length_append] at enough
    omega
  have goesOn : continues (headKind (t :: tokens ++ rest)) < Level.primary.reach := by
    rw [List.cons_append, headKind_cons, continues_of_startsTrailer starts]
    decide
  exact Resumes.again (ofBase depth room _ goesOn) fun node isBase =>
    reads_trailerTurn isEnd starts (reads depth enough rest node isBase)

theorem completes_slice {opening colon closing : Token} {base : Node}
    (opens : opening.kind = .leftBracket) (isColon : colon.kind = .colon)
    (closes : closing.kind = .rightBracket)
    (ofBase : Completes ending (.expression .primary base) tokens)
    (ofStart : Completes ending (.bound start) before)
    (ofStop : Completes ending (.bound stop) behind)
    (ofStep : Completes ending (.step step) last)
    (steps : last = [] ∨ ∃ t more, last = t :: more ∧ t.kind = .colon) :
    Completes ending (.expression .primary (.slice base ⟨start, stop, step, {}⟩))
      (tokens ++ opening :: before ++ colon :: behind ++ last ++ [closing]) := by
  have shape : tokens ++ opening :: before ++ colon :: behind ++ last ++ [closing] =
      tokens ++ opening :: (before ++ colon :: behind ++ last ++ [closing]) := by simp
  rw [shape]
  refine completes_trailer isEnd (by simp [opens, startsTrailer]) ofBase
    fun depth enough rest node isBase => ?_
  simp only [List.length_append, List.length_cons] at enough
  have ends : EndsElements (headKind (last ++ closing :: rest)) := by
    rcases steps with rfl | ⟨t, more, rfl, isStep⟩
    · exact .inl closes
    · exact .inr isStep
  have sliced : Reads ending (trailer (nest depth))
      (opening :: before ++ colon :: behind ++ last ++ [closing]) rest
      fun t => ∀ base, (t.apply base).bare = .slice base.bare ⟨start, stop, step, {}⟩ :=
    reads_trailer isEnd opens isColon closes (ofStart depth (by omega) _ (.inr isColon))
      (ofStop depth (by omega) _ ends) (ofStep depth (by omega) _ closes)
  refine Reads.mono (by simpa using sliced) fun trailer made => ?_
  rw [made, isBase]

/-- The parser takes what is derived, and makes its tree. -/
theorem completes {phrase : Phrase} (derived : Derives phrase tokens) :
    Completes ending phrase tokens := by
  induction derived with
  | value isValue single =>
    refine completes_atom fun depth _ rest _ => ?_
    exact reads_atom_leaf isEnd (reads_value isEnd isValue single) isValue
  | strings areStrings =>
    refine completes_atom fun depth _ rest notString => ?_
    refine reads_atom_leaf isEnd (reads_value_strings isEnd areStrings notString) ?_
    obtain ⟨first, more, rfl, isString⟩ := areStrings.head
    simp [isString, startsValue]
  | enclosed ofContainer ih =>
    exact completes_atom fun depth enough rest _ =>
      reads_atom_enclosed isEnd (ih depth enough rest)
  | reference isSigil opens closes ofPath ih =>
    refine completes_atom fun depth enough rest _ => ?_
    refine reads_reference isEnd isSigil opens closes ?_
    simp only [List.length_append, List.length_cons] at enough
    refine ih.inside isEnd (by decide) (by omega) ?_
    rw [headKind_cons, closes]
    rfl
  | parentheses opens closes ofInside ih =>
    refine completes_atom fun depth enough rest _ => ?_
    refine reads_parentheses isEnd opens closes ?_
    simp only [List.length_append, List.length_cons] at enough
    refine ih.inside isEnd (by decide) (by omega) ?_
    rw [headKind_cons, closes]
    rfl
  | member ofBase isDot isWord ih =>
    refine completes_trailer isEnd (by simp [isDot, startsTrailer]) ih
      fun depth _ rest node isBase => ?_
    refine (reads_trailer_member isEnd isDot isWord).mono fun trailer made => ?_
    rw [made, isBase]
  | index ofBase opens closes ofOperand ihBase ihOperand =>
    rw [List.append_assoc, List.cons_append]
    refine completes_trailer isEnd (by simp [opens, startsTrailer]) ihBase
      fun depth enough rest node isBase => ?_
    simp only [List.length_append, List.length_cons] at enough
    refine (reads_trailer_index isEnd opens closes
      (ihOperand depth (by omega) _ (.inl closes))).mono fun trailer made => ?_
    rw [made, isBase]
  | slice ofBase opens isColon closes ofStart ofStop ofStep ihBase ihStart ihStop ihStep =>
    refine completes_slice isEnd opens isColon closes ihBase ihStart ihStop ihStep ?_
    cases ofStep with
    | noStep => exact .inl rfl
    | step isColon => exact .inr ⟨_, _, rfl, isColon⟩
  | unary isMark ofOperand ih =>
    intro depth enough rest ends
    exact parses_unary isEnd isMark (ih depth (Nat.le_of_succ_le enough) rest ends)
  | binary areMarks ofLeft ofRight ihLeft ihRight =>
    exact completes_binary isEnd areMarks ofRight ihLeft ihRight
  | tighter tighter ofOperand ih => exact completes_tighter isEnd tighter ofOperand ih
  | list opens closes ofBody ih =>
    intro depth enough rest
    simp only [List.length_append, List.length_cons] at enough
    exact .inl ⟨opens, reads_list isEnd opens closes (ih depth (by omega) _ (.inl closes))⟩
  | mapping opens closes ofBody ih =>
    intro depth enough rest
    simp only [List.length_append, List.length_cons] at enough
    exact .inr ⟨opens, reads_mapping isEnd opens closes
      (ih depth (by omega) _ (by simp [closes, endsBody]))⟩
  | noElements lead =>
    intro depth _ rest ends
    exact readsElements_nil isEnd lead ends
  | lastElement lead ofElement ih =>
    intro depth enough rest ends
    simp only [List.length_append] at enough
    have starts : startsExpression (headKind _) :=
      startsExpression_of_opens (by simpa using ofElement.starts [])
    exact readsElements_last isEnd lead ends starts
      (ih.inside isEnd (by decide) (by omega) ends.kinds.2.2.2)
  | element lead ofElement separates ofRest ihElement ihRest =>
    intro depth enough rest ends
    simp only [List.length_append, List.length_cons] at enough
    have starts : startsExpression (headKind _) :=
      startsExpression_of_opens (by simpa using ofElement.starts [])
    refine readsElements_cons isEnd lead starts separates ends (fun rest => ?_)
      (ihRest depth (by omega) rest ends)
    exact ihElement.inside isEnd (by decide) (by omega) (continues_of_isSeparator separates)
  | noEntries lead =>
    intro depth _ rest ends
    exact readsEntries_nil isEnd lead ends
  | lastEntry lead ofEntry ih =>
    intro depth enough rest ends
    simp only [List.length_append] at enough
    obtain ⟨first, more, rfl, starts⟩ := ofEntry.startsWith
    exact readsEntries_last isEnd lead ends starts
      (ih depth (by omega) rest (continues_of_endsBody ends))
  | entry lead ofEntry separates ofRest ihEntry ihRest =>
    intro depth enough rest ends
    simp only [List.length_append, List.length_cons] at enough
    obtain ⟨first, more, rfl, starts⟩ := ofEntry.startsWith
    refine readsEntries_cons isEnd lead starts separates ends (fun rest => ?_)
      (ihRest depth (by omega) rest ends)
    exact ihEntry depth (by omega) _ (continues_of_isSeparator separates)
  | keyed ofKey isSign areNewlines ofTree ih =>
    intro depth enough rest ends
    simp only [List.length_append, List.length_cons] at enough
    have starts : startsExpression (headKind _) :=
      startsExpression_of_opens (by simpa using ofTree.starts [])
    exact reads_entry isEnd ofKey isSign areNewlines starts
      (ih.inside isEnd (by decide) (by omega) ends)
  | noBound => exact fun _ _ _ _ => rfl
  | bound ofBound ih => exact fun depth enough rest ends => ih depth enough rest ends
  | noStep => exact fun _ _ _ _ => .inl ⟨rfl, rfl⟩
  | step isColon ofBound ih =>
    intro depth enough rest closes
    exact .inr ⟨_, _, rfl, isColon, ih depth (Nat.lt_of_succ_lt enough) rest (.inl closes)⟩

end Parser

end LazyConfig.Syntax
