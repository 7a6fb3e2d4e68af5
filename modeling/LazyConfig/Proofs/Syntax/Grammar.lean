import LazyConfig.Syntax.Parser

/-!
# Derivations

The grammar apart from its parser: which sequences of tokens stand for which trees. Trees are taken
up to locations here, so that two texts of the same tokens have the same trees.
-/

namespace LazyConfig

open Token (Kind)
open Syntax (PrefixOp InfixOp Bounds)

/-! ### Trees up to locations -/

def Token.bare (t : Token) : Token := { t with span := {} }

theorem Token.bare_eq_iff {t u : Token} :
    t.bare = u.bare ↔ t.kind = u.kind ∧ t.text = u.text ∧ t.value = u.value := by
  simp [Token.bare]

namespace Node

mutual

/-- The tree without its locations. -/
def bare : Node → Node
  | leaf token => leaf token.bare
  | unary op operand _ => unary op operand.bare {}
  | reference path _ => reference path.bare {}
  | binary op left right => binary op left.bare right.bare
  | member base name => member base.bare name.bare
  | index base operand => index base.bare operand.bare
  | slice base bounds => slice base.bare (bareBounds bounds)
  | list elements _ => list (allBare elements) {}
  | mapping entries _ => mapping (entriesBare entries) {}

def bareBounds : Bounds Node → Bounds Node
  | ⟨start, stop, step, _⟩ => ⟨bareBound start, bareBound stop, bareBound step, {}⟩

def bareBound : Option Node → Option Node
  | none => none
  | some bound => some bound.bare

def allBare : List Node → List Node
  | [] => []
  | node :: rest => node.bare :: allBare rest

def entriesBare : List (Token × Node) → List (Token × Node)
  | [] => []
  | (key, node) :: rest => (key.bare, node.bare) :: entriesBare rest

end

theorem bareBound_eq (bound : Option Node) : bareBound bound = bound.map bare := by
  cases bound <;> rfl

theorem allBare_eq (nodes : List Node) : allBare nodes = nodes.map bare := by
  induction nodes with
  | nil => rfl
  | cons node rest ih => rw [allBare, ih, List.map_cons]

theorem entriesBare_eq (entries : List (Token × Node)) :
    entriesBare entries = entries.map fun (key, node) => (key.bare, node.bare) := by
  induction entries with
  | nil => rfl
  | cons entry rest ih => rw [entriesBare, ih, List.map_cons]

end Node

namespace Syntax

/-! ### Precedence -/

/-- How tightly the operators of a level bind. -/
def Level.rank : Level → Nat
  | .disjunction => 1
  | .conjunction => 2
  | .negation => 3
  | .comparison => 4
  | .bitOr => 5
  | .bitXor => 6
  | .bitAnd => 7
  | .shift => 8
  | .sum => 9
  | .product => 10
  | .sign => 11
  | .power => 12
  | .primary => 13

/-- The level that binds next tighter. -/
def Level.tighter? : Level → Option Level
  | .disjunction => some .conjunction
  | .conjunction => some .negation
  | .negation => some .comparison
  | .comparison => some .bitOr
  | .bitOr => some .bitXor
  | .bitXor => some .bitAnd
  | .bitAnd => some .shift
  | .shift => some .sum
  | .sum => some .product
  | .product => some .sign
  | .sign => some .power
  | .power => some .primary
  | .primary => none

theorem Level.rank_of_tighter? {level inner : Level} (tighter : level.tighter? = some inner) :
    inner.rank = level.rank + 1 := by
  cases level <;> cases tighter <;> rfl

theorem Level.rank_injective {level other : Level} (same : level.rank = other.rank) :
    level = other := by
  cases level <;> cases other <;> first | rfl | cases same

theorem Level.exists_tighter? {level : Level} (below : level.rank < Level.primary.rank) :
    ∃ inner, level.tighter? = some inner := by
  cases level
  case primary => exact absurd below (Nat.lt_irrefl _)
  all_goals exact ⟨_, rfl⟩

/-- Where an operator before its operand belongs, and its operand, too. -/
def PrefixOp.level : PrefixOp → Level
  | .not => .negation
  | _ => .sign

/-- What may stand on the left of an operator. A comparison does not go on from another one. -/
def InfixOp.left (op : InfixOp) : Level :=
  match op.level with
  | .comparison => .bitOr
  | .power => .primary
  | level => level

/-- What may stand on the right of an operator: a tighter operand, but for a power, which may have
signs and powers on its right. -/
def InfixOp.right (op : InfixOp) : Level :=
  match op.level with
  | .comparison => .bitOr
  | .power => .sign
  | level => level.tighter?.getD .primary

/-- The tokens that an operator is written with. -/
def InfixOp.kinds : InfixOp → List Kind
  | .isNot => [.is, .not]
  | .notIn => [.not, .in]
  | op => [op.kind]

/-- The levels whose operators associate to the left. -/
def Level.associatesLeft : Level → Bool
  | .negation | .comparison | .sign | .power | .primary => false
  | _ => true

/-- An operator that associates to the left has one of its level on its left, and one of the next
level on its right. -/
theorem InfixOp.operands_of_associatesLeft {op : InfixOp} (chains : op.level.associatesLeft) :
    op.left = op.level ∧ op.level.tighter? = some op.right ∧ op.kinds = [op.kind] := by
  cases op <;> first | contradiction | exact ⟨rfl, rfl, rfl⟩

/-! ### Rules -/

def AreNewlines (tokens : List Token) : Prop := ∀ t ∈ tokens, t.kind = .newline

/-- One or more strings that stand one behind the other, and the string that they are together. -/
inductive Strings : List Token → Token → Prop
  | joined {first joined : Token} {others : List Token}
    (all : ∀ t ∈ first :: others, t.kind = .string)
    (join : joinStrings? first others = some joined) : Strings (first :: others) joined.bare

/-- The key of an entry. -/
inductive Key : List Token → Token → Prop
  | word {t : Token} (isWord : t.kind = .word) : Key [t] t.bare
  | strings {tokens : List Token} {key : Token} (areStrings : Strings tokens key) : Key tokens key

/-- What a rule of the grammar is about. -/
inductive Phrase where
  | expression (level : Level) (tree : Node)
  /-- A list or a mapping in brackets. -/
  | enclosed (tree : Node)
  /-- The body of a list. -/
  | elements (trees : List Node)
  | entry (entry : Token × Node)
  /-- The body of a mapping. -/
  | entries (entries : List (Token × Node))
  /-- A bound of a slice, which may be left out. -/
  | bound (bound? : Option Node)
  /-- The last bound of a slice with the colon before it, which may be left out, too. -/
  | step (bound? : Option Node)

/-- Which tokens make up which phrase. -/
inductive Derives : Phrase → List Token → Prop
  -- atoms
  | value {t : Token} (isValue : startsValue t.kind) (single : t.kind ≠ .string) :
    Derives (.expression .primary (.leaf t.bare)) [t]
  | strings {tokens : List Token} {t : Token} (areStrings : Strings tokens t) :
    Derives (.expression .primary (.leaf t)) tokens
  | enclosed {tokens : List Token} {tree : Node} (ofContainer : Derives (.enclosed tree) tokens) :
    Derives (.expression .primary tree) tokens
  | reference {sigil opening closing : Token} {tokens : List Token} {path : Node}
    (isSigil : sigil.kind = .dollar) (opens : opening.kind = .leftCurly)
    (closes : closing.kind = .rightCurly) (ofPath : Derives (.expression .primary path) tokens) :
    Derives (.expression .primary (.reference path {})) (sigil :: opening :: tokens ++ [closing])
  | parentheses {opening closing : Token} {tokens : List Token} {tree : Node}
    (opens : opening.kind = .leftParenthesis) (closes : closing.kind = .rightParenthesis)
    (ofInside : Derives (.expression .disjunction tree) tokens) :
    Derives (.expression .primary tree) (opening :: tokens ++ [closing])
  -- trailers
  | member {tokens : List Token} {base : Node} {dot name : Token}
    (ofBase : Derives (.expression .primary base) tokens)
    (isDot : dot.kind = .dot) (isWord : name.kind = .word) :
    Derives (.expression .primary (.member base name.bare)) (tokens ++ [dot, name])
  | index {tokens inside : List Token} {base operand : Node} {opening closing : Token}
    (ofBase : Derives (.expression .primary base) tokens)
    (opens : opening.kind = .leftBracket) (closes : closing.kind = .rightBracket)
    (ofOperand : Derives (.elements [operand]) inside) :
    Derives (.expression .primary (.index base operand)) (tokens ++ opening :: inside ++ [closing])
  | slice {tokens before behind last : List Token} {base : Node} {start stop step : Option Node}
    {opening colon closing : Token}
    (ofBase : Derives (.expression .primary base) tokens)
    (opens : opening.kind = .leftBracket) (isColon : colon.kind = .colon)
    (closes : closing.kind = .rightBracket) (ofStart : Derives (.bound start) before)
    (ofStop : Derives (.bound stop) behind) (ofStep : Derives (.step step) last) :
    Derives (.expression .primary (.slice base ⟨start, stop, step, {}⟩))
      (tokens ++ opening :: before ++ colon :: behind ++ last ++ [closing])
  -- operators
  | unary {op : PrefixOp} {mark : Token} {tokens : List Token} {operand : Node}
    (isMark : mark.kind = op.kind) (ofOperand : Derives (.expression op.level operand) tokens) :
    Derives (.expression op.level (.unary op operand {})) (mark :: tokens)
  | binary {op : InfixOp} {marks before behind : List Token} {left right : Node}
    (areMarks : marks.map (·.kind) = op.kinds) (ofLeft : Derives (.expression op.left left) before)
    (ofRight : Derives (.expression op.right right) behind) :
    Derives (.expression op.level (.binary op left right)) (before ++ marks ++ behind)
  | tighter {level inner : Level} {tokens : List Token} {tree : Node}
    (tighter : level.tighter? = some inner) (ofOperand : Derives (.expression inner tree) tokens) :
    Derives (.expression level tree) tokens
  -- containers
  | list {opening closing : Token} {tokens : List Token} {elements : List Node}
    (opens : opening.kind = .leftBracket) (closes : closing.kind = .rightBracket)
    (ofBody : Derives (.elements elements) tokens) :
    Derives (.enclosed (.list elements {})) (opening :: tokens ++ [closing])
  | mapping {opening closing : Token} {tokens : List Token} {entries : List (Token × Node)}
    (opens : opening.kind = .leftCurly) (closes : closing.kind = .rightCurly)
    (ofBody : Derives (.entries entries) tokens) :
    Derives (.enclosed (.mapping entries {})) (opening :: tokens ++ [closing])
  -- bodies: line ends, and items with a separator and the rest of the body behind each but perhaps
  -- the last, so that a separator at the end has an empty rest behind it
  | noElements {newlines : List Token} (lead : AreNewlines newlines) :
    Derives (.elements []) newlines
  | lastElement {newlines tokens : List Token} {element : Node} (lead : AreNewlines newlines)
    (ofElement : Derives (.expression .disjunction element) tokens) :
    Derives (.elements [element]) (newlines ++ tokens)
  | element {newlines tokens rest : List Token} {element : Node} {separator : Token}
    {elements : List Node} (lead : AreNewlines newlines)
    (ofElement : Derives (.expression .disjunction element) tokens)
    (separates : isSeparator separator.kind) (ofRest : Derives (.elements elements) rest) :
    Derives (.elements (element :: elements)) (newlines ++ tokens ++ separator :: rest)
  | noEntries {newlines : List Token} (lead : AreNewlines newlines) :
    Derives (.entries []) newlines
  | lastEntry {newlines tokens : List Token} {entry : Token × Node} (lead : AreNewlines newlines)
    (ofEntry : Derives (.entry entry) tokens) : Derives (.entries [entry]) (newlines ++ tokens)
  | entry {newlines tokens rest : List Token} {entry : Token × Node} {separator : Token}
    {entries : List (Token × Node)} (lead : AreNewlines newlines)
    (ofEntry : Derives (.entry entry) tokens) (separates : isSeparator separator.kind)
    (ofRest : Derives (.entries entries) rest) :
    Derives (.entries (entry :: entries)) (newlines ++ tokens ++ separator :: rest)
  | keyed {label gap tokens : List Token} {key sign : Token} {tree : Node} (ofKey : Key label key)
    (isSign : sign.kind = .colon ∨ sign.kind = .assign) (areNewlines : AreNewlines gap)
    (ofTree : Derives (.expression .disjunction tree) tokens) :
    Derives (.entry (key, tree)) (label ++ sign :: gap ++ tokens)
  -- bounds of slices
  | noBound : Derives (.bound none) []
  | bound {tokens : List Token} {tree : Node} (ofBound : Derives (.elements [tree]) tokens) :
    Derives (.bound (some tree)) tokens
  | noStep : Derives (.step none) []
  | step {colon : Token} {tokens : List Token} {bound? : Option Node}
    (isColon : colon.kind = .colon) (ofBound : Derives (.bound bound?) tokens) :
    Derives (.step bound?) (colon :: tokens)

/-- An expression of a tighter level is one of a looser level. -/
theorem Derives.loosen {level inner : Level} {tree : Node} {tokens : List Token}
    (derived : Derives (.expression inner tree) tokens) (looser : level.rank ≤ inner.rank) :
    Derives (.expression level tree) tokens := by
  generalize apart : inner.rank - level.rank = count
  induction count generalizing level with
  | zero =>
    have same : level.rank = inner.rank := by omega
    rwa [Level.rank_injective same]
  | succ count ih =>
    have below : level.rank < Level.primary.rank := by
      have most : inner.rank ≤ Level.primary.rank := by cases inner <;> decide
      omega
    obtain ⟨next, tighter⟩ := Level.exists_tighter? below
    have deeper := Level.rank_of_tighter? tighter
    exact .tighter tighter (ih (by omega) (by omega))

/-- The root of a document: a mapping or a list in brackets, or the entries of a mapping. -/
inductive Root : Node → List Token → Prop
  | enclosed {tokens : List Token} {tree : Node} (ofContainer : Derives (.enclosed tree) tokens) :
    Root tree tokens
  | entries {tokens : List Token} {entries : List (Token × Node)}
    (ofBody : Derives (.entries entries) tokens) : Root (.mapping entries {}) tokens

/-- A document: a root with line ends before and behind it. -/
def Layout (tree : Node) (tokens : List Token) : Prop :=
  ∃ before root behind, AreNewlines before ∧ AreNewlines behind ∧ Root tree root ∧
    tokens = before ++ root ++ behind

/-! ### Sentences -/

/-- The tokens of a text: an end token stands behind them, and none is among them. -/
structure Sentence where
  tokens : List Token
  ending : Token
  inner : ∀ t ∈ tokens, t.kind ≠ .eof
  isEnd : ending.kind = .eof

/-- The stream of tokens with an end token behind them. -/
def streamOf (ending : Token) : List Token → Token.Stream
  | [] => ⟨ending, [], .ok ending⟩
  | token :: rest => ⟨token, rest, .ok ending⟩

def Sentence.stream (s : Sentence) : Token.Stream := streamOf s.ending s.tokens

end Syntax

end LazyConfig
