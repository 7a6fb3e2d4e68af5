import LazyConfig.Syntax.Error
import LazyConfig.Syntax.Node
import LazyConfig.Token.Stream

/-!
# The grammar

Each rule of the grammar is a parser: it takes tokens from a stream and makes a tree, or fails and
leaves the stream at the token where it failed. Rules that contain expressions take the parser of
nested expressions as an argument, and `nest` closes that circle. Every turn of a loop and every
level of nesting takes a token, so the number of tokens bounds both.
-/

namespace LazyConfig.Syntax

open Token (Kind Stream)

abbrev Parser := ExceptT Error (StateM Stream)

/-- The parser of the expressions inside brackets and entries. -/
abbrev Nested := Level → Parser Node

namespace Parser

/-- Runs a parser; the stream is returned after an error, too. -/
def run {α : Type} (p : Parser α) (s : Stream) : Except Error α × Stream :=
  StateT.run (ExceptT.run p) s

def peek : Parser Token := return (← get).next

def kind : Parser Kind := return (← peek).kind

/-- Whether only the end token is left. -/
def atEnd : Parser Bool := return (← kind) = .eof

def fail {α : Type} (fault : Fault) : Parser α := do throw (.grammar fault (← peek).span.start)

/-- Goes on to the next token and returns its kind. -/
def advance : Parser Kind := do
  match (← get).advance with
  | .ok s => set s; return s.next.kind
  | .error e => throw (.token e)

/-- Takes the token at hand. -/
def take : Parser Token := do
  let token ← peek
  let _ ← advance
  return token

/-- Takes a token of the given kind. -/
def expect (wanted : Kind) : Parser Token := do
  let found ← kind
  if found = wanted then take else fail (.expected wanted found)

/-- Repeats a step at most once for each element of the budget and once more. -/
def iterateWithin {σ α : Type} (step : σ → Parser (σ ⊕ α)) : List Token → σ → Parser α
  | [], s => do
    match ← step s with
    | .inl _ => throw .exhausted
    | .inr result => return result
  | _ :: budget, s => do
    match ← step s with
    | .inl s => iterateWithin step budget s
    | .inr result => return result

/-- Repeats a step, which takes a token whenever it asks for another turn. -/
def iterate {σ α : Type} (step : σ → Parser (σ ⊕ α)) (s : σ) : Parser α := do
  iterateWithin step (← get).toList s

/-- Skips line ends and returns the kind of the token behind them. -/
def skipNewlines : Parser Kind :=
  iterate (fun _ => do
    let found ← kind
    if found = .newline then let _ ← advance; return .inl () else return .inr found) ()

end Parser

open LazyConfig.Syntax.Parser

/-! ### Values -/

def startsValue : Kind → Bool
  | .word | .integer | .float | .complex | .string | .backTick | .none | .true | .false => true
  | _ => false

def startsExpression (k : Kind) : Bool :=
  startsValue k ||
    [.leftCurly, .leftBracket, .leftParenthesis, .at, .dollar, .plus, .minus, .bitwiseComplement,
      .not].contains k

/-- One string token for a token and the strings that follow it, if all of them have texts. -/
def joinStrings? (first : Token) (others : List Token) : Option Token := do
  match others.getLast? with
  | none => return first
  | some last =>
    let all := first :: others
    let values ← all.mapM (·.value.text?)
    return { kind := .string, text := String.join (all.map (·.text)),
             value := .assembled (String.join values),
             span := { first.span with stop := last.span.stop } }

/-- The token at hand together with the strings that follow it. -/
def strings : Parser Token := do
  let first ← take
  let others ← iterate (fun (others : List Token) => do
    if (← kind) = .string then return .inl ((← take) :: others)
    else return .inr others.reverse) []
  match joinStrings? first others with
  | some joined => return joined
  | none => throw (.notJoined first.kind)

def value : Parser Token := do
  let found ← kind
  if !startsValue found then fail (.noValue found)
  else if found = .string then strings
  else take

/-! ### Containers -/

def isSeparator (k : Kind) : Bool := k = .newline || k = .comma

/-- The elements of a list, without its brackets. -/
def listBody (nested : Nested) : Parser (List Node × Span) := do
  let _ ← skipNewlines
  let span := (← peek).span
  -- a separator may follow the last element, so that what comes next need not be one
  let elements ← iterate (fun (done : List Node) => do
    if !startsExpression (← kind) then return .inr done
    let element ← nested .disjunction
    let done := element :: done
    if !isSeparator (← kind) then return .inr done
    let _ ← advance
    let _ ← skipNewlines
    return .inl done) []
  let stop := (elements.head?.map Node.stop).getD span.start
  return (elements.reverse, { span with stop })

def list (nested : Nested) : Parser Node := do
  let opening ← expect .leftBracket
  let (elements, _) ← listBody nested
  let closing ← expect .rightBracket
  return .list elements { opening.span with stop := closing.span.stop }

/-- A string of any length, or the token at hand. -/
def mappingKey : Parser Token := do
  if (← kind) = .string then strings else take

/-- A key, a separator and an expression. -/
def entry (nested : Nested) : Parser (Token × Node) := do
  let key ← mappingKey
  let found ← kind
  if found ≠ .colon ∧ found ≠ .assign then fail (.noSeparator found)
  let _ ← advance
  let _ ← skipNewlines
  return (key, ← nested .disjunction)

def startsKey (k : Kind) : Bool := k = .word || k = .string

def endsBody (k : Kind) : Bool := k = .rightCurly || k = .eof

/-- The entries of a mapping, without its brackets. -/
def mappingBody (nested : Nested) : Parser (List (Token × Node) × Span) := do
  let first ← skipNewlines
  let span := (← peek).span
  if !endsBody first && !startsKey first then fail (.noKey first)
  let entries ← iterate (fun (done : List (Token × Node)) => do
    if !startsKey (← kind) then return .inr done
    let done := (← entry nested) :: done
    -- an entry ends in a separator, or where the body does
    let found ← kind
    if isSeparator found then
      let _ ← advance
      let _ ← skipNewlines
      return .inl done
    else if endsBody found then return .inr done
    else fail (.afterEntry found)) []
  let stop := (entries.head?.map (·.2.stop)).getD span.start
  return (entries.reverse, { span with stop })

def mapping (nested : Nested) : Parser Node := do
  let opening ← expect .leftCurly
  let (entries, _) ← mappingBody nested
  let closing ← expect .rightCurly
  return .mapping entries { opening.span with stop := closing.span.stop }

/-- A whole document: a mapping or a list in brackets, or the entries of a mapping. -/
def container (nested : Nested) : Parser Node := do
  let found ← skipNewlines
  let result ←
    if found = .leftCurly then mapping nested
    else if found = .leftBracket then list nested
    else if startsKey found || found = .eof then
      let (entries, span) ← mappingBody nested
      pure (.mapping entries span)
    else fail (.noContainer found)
  let _ ← skipNewlines
  return result

/-! ### Primaries -/

def atom (nested : Nested) : Parser Node := do
  match ← kind with
  | .leftCurly => mapping nested
  | .leftBracket => list nested
  | .dollar =>
    let sigil ← take
    let _ ← expect .leftCurly
    let path ← nested .primary
    let _ ← expect .rightCurly
    return .reference path sigil.span.start
  | .leftParenthesis =>
    let _ ← advance
    let inner ← nested .disjunction
    let _ ← expect .rightParenthesis
    return inner
  | found => if startsValue found then return .leaf (← value) else fail (.noOperand found)

/-- The expression that stands alone as an index or as a bound of a slice. -/
def sliceElement (nested : Nested) : Parser Node := do
  let (elements, span) ← listBody nested
  match elements with
  | [element] => return element
  | _ => throw (.grammar (.notOneIndex span.start elements.length) span.start)

/-- The step of a slice, if the token at hand is the colon before it. -/
def sliceStep (nested : Nested) : Parser (Option Node) := do
  if (← kind) ≠ .colon then return none
  if (← advance) = .rightBracket then return none
  return some (← sliceElement nested)

/-- The rest of a slice, from the colon after its start on. -/
def sliceRest (nested : Nested) (opening : Token) (start : Option Node) : Parser Trailer := do
  let found ← advance
  let stop ← if found = .colon ∨ found = .rightBracket then pure none
    else some <$> sliceElement nested
  let step ← sliceStep nested
  let closing ← expect .rightBracket
  return .slice ⟨start, stop, step, { opening.span with stop := closing.span.stop }⟩

/-- A name after a point, or an index or a slice in brackets. -/
def trailer (nested : Nested) : Parser Trailer := do
  if (← kind) ≠ .leftBracket then
    let _ ← expect .dot
    return .member (← expect .word)
  let opening ← take
  if (← kind) = .colon then sliceRest nested opening none
  else
    let element ← sliceElement nested
    if (← kind) = .colon then sliceRest nested opening (some element)
    else
      let _ ← expect .rightBracket
      return .index element

def startsTrailer (k : Kind) : Bool := k = .dot || k = .leftBracket

/-- An atom and its trailers. -/
def primary (nested : Nested) : Parser Node := do
  iterate (fun base => do
    if startsTrailer (← kind) then return .inl ((← trailer nested).apply base)
    else return .inr base) (← atom nested)

/-! ### Operators -/

/-- A primary, or a power of it. -/
def powerOf (nested : Nested) (exponent : Parser Node) : Parser Node := do
  let base ← primary nested
  -- the exponent takes all powers that follow, so that one turn is enough
  if (← kind) ≠ .power then return base
  let _ ← advance
  return .binary .power base (← exponent)

/-- A power behind any number of signs, within a budget. -/
def signWithin (nested : Nested) : List Token → Parser Node
  | [] => throw .exhausted
  | _ :: budget => do
    match PrefixOp.sign? (← kind) with
    | some op =>
      let mark ← take
      return .unary op (← signWithin nested budget) mark.span.start
    | none => powerOf nested (signWithin nested budget)

def sign (nested : Nested) : Parser Node := do
  let s ← get
  signWithin nested (s.next :: s.toList)

def power (nested : Nested) : Parser Node := powerOf nested (sign nested)

/-- Operands joined by the operators of a level, associated to the left. -/
def chain (level : Level) (operand : Parser Node) : Parser Node := do
  iterate (fun left => do
    match InfixOp.at? level (← kind) with
    | some op =>
      let _ ← advance
      return .inl (.binary op left (← operand))
    | none => return .inr left) (← operand)

def product (nested : Nested) : Parser Node := chain .product (sign nested)

def sum (nested : Nested) : Parser Node := chain .sum (product nested)

def shift (nested : Nested) : Parser Node := chain .shift (sum nested)

def bitAnd (nested : Nested) : Parser Node := chain .bitAnd (shift nested)

def bitXor (nested : Nested) : Parser Node := chain .bitXor (bitAnd nested)

def bitOr (nested : Nested) : Parser Node := chain .bitOr (bitXor nested)

def startsComparison : Kind → Bool
  | .lessThan | .lessThanOrEqual | .greaterThan | .greaterThanOrEqual | .equal | .unequal
  | .altUnequal | .is | .in | .not => true
  | _ => false

/-- The kind of a comparison operator, which may take two tokens. -/
def comparisonKind : Parser Kind := do
  match (← take).kind with
  | .is =>
    if (← kind) = .not then let _ ← advance; return .isNot else return .is
  | .not => let _ ← expect .in; return .notIn
  | found => return found

/-- One comparison of two operands, or a single operand. -/
def comparison (nested : Nested) : Parser Node := do
  let left ← bitOr nested
  if !startsComparison (← kind) then return left
  let found ← comparisonKind
  match InfixOp.ofKind? found with
  | some op => return .binary op left (← bitOr nested)
  | none => fail (.noOperand found)

/-- A comparison behind any number of negations, within a budget. -/
def negationWithin (nested : Nested) : List Token → Parser Node
  | [] => throw .exhausted
  | _ :: budget => do
    if (← kind) ≠ .not then comparison nested
    else
      let mark ← take
      return .unary .not (← negationWithin nested budget) mark.span.start

def negation (nested : Nested) : Parser Node := do
  let s ← get
  negationWithin nested (s.next :: s.toList)

def conjunction (nested : Nested) : Parser Node := chain .conjunction (negation nested)

def disjunction (nested : Nested) : Parser Node := chain .disjunction (conjunction nested)

/-- The parser of each level. -/
def ofLevel (nested : Nested) : Nested
  | .disjunction => disjunction nested
  | .conjunction => conjunction nested
  | .negation => negation nested
  | .comparison => comparison nested
  | .bitOr => bitOr nested
  | .bitXor => bitXor nested
  | .bitAnd => bitAnd nested
  | .shift => shift nested
  | .sum => sum nested
  | .product => product nested
  | .sign => sign nested
  | .power => power nested
  | .primary => primary nested

/-- The parsers of expressions that nest at most so deep. -/
def nest : Nat → Nested
  | 0 => fun _ => throw .exhausted
  | depth + 1 => ofLevel (nest depth)

/-- Runs a rule with a depth of nesting that the tokens at hand cannot exceed. -/
def withNesting {α : Type} (rule : Nested → Parser α) : Parser α := do
  rule (nest ((← get).rest.length + 2))

def expression : Parser Node := withNesting disjunction

/-- A whole document, up to the end of the text. -/
def document : Parser Node := do
  let root ← withNesting container
  let _ ← expect .eof
  return root

end LazyConfig.Syntax
