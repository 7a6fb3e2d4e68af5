import LazyConfig.Document.Load
import LazyConfig.Proofs.Syntax.Outcome
import LazyConfig.Proofs.Token.Legible

/-!
# Every rule ends

What a rule of the grammar ends in: a tree that is put together from tokens it has taken, one behind
the other, or an error at the place of one of them. Where the locations in a tree come from is a
relation between trees and tokens, with one case for each way to make a tree. What holds of all
trees of a text then follows from the order of its tokens, without another look at the rules.

No rule comes to the end of its budgets. A rule that starts with so many tokens before the end of
the text gets on with nested expressions for fewer, since it takes a token in front of each of them.
-/

namespace LazyConfig

/-! ### Streams of a text -/

namespace Token.Stream

/-- The stream of a text of which the tokens start at places of a kind, and an error that ends it is
one of a sort. -/
structure Sound (place : Location → Prop) (wrong : Token.Error → Prop) (s : Stream) : Prop where
  places : ∀ t ∈ s.all, place t.span.start
  texts : ∀ t ∈ s.all, t.kind = .string → t.value.text?.isSome
  inner : ∀ t ∈ s.rest, t.kind ≠ .eof
  last : s.next.kind = .eof → s.rest = []
  isEnd : ∀ t, s.ending = .ok t → t.kind = .eof
  wrong : ∀ e, s.ending = .error e → wrong e

variable {place : Location → Prop} {wrong : Token.Error → Prop} {s behind : Stream}

theorem Sound.here (sound : s.Sound place wrong) : place s.next.span.start :=
  sound.places s.next (by simp [all, toList])

theorem Sound.refused (sound : s.Sound place wrong) {e : Token.Error}
    (refused : s.advance = .error e) : wrong e := by
  obtain ⟨first, rest, ending⟩ := s
  cases rest with
  | cons token rest => cases refused
  | nil =>
    cases ending with
    | ok token => cases refused
    | error e =>
      cases refused
      exact sound.wrong e rfl

/-- The stream stays one of the text, and has one token less, unless it is the end token. -/
theorem Sound.advance (sound : s.Sound place wrong) (advanced : s.advance = .ok behind) :
    behind.Sound place wrong ∧ behind.size ≤ s.size - 1 := by
  obtain ⟨first, rest, ending⟩ := s
  obtain ⟨places, texts, inner, last, isEnd, wrong⟩ := sound
  cases rest with
  | cons token rest =>
    cases advanced
    have isInner := inner token (by simp)
    have notEnd : first.kind ≠ .eof := fun eof => by cases last eof
    refine ⟨⟨?_, ?_, ?_, ?_, isEnd, wrong⟩, ?_⟩
    · exact fun t among => places t (List.mem_cons_of_mem first among)
    · exact fun t among => texts t (List.mem_cons_of_mem first among)
    · exact fun t among => inner t (List.mem_cons_of_mem token among)
    · exact fun eof => absurd eof isInner
    · simp [size, isInner, notEnd, toList]
  | nil =>
    cases ending with
    | error e => cases advanced
    | ok token =>
      -- behind the last token stands the end token, and behind that the end token again
      cases advanced
      have eof := isEnd token rfl
      have among (t : Token) (among : t ∈ all ⟨token, [], .ok token⟩) :
          t ∈ all ⟨first, [], .ok token⟩ := by
        simp only [all, toList, Except.toOption, Option.toList, List.cons_append, List.nil_append,
          List.mem_cons, List.not_mem_nil, or_false, or_self] at among ⊢
        exact .inr among
      refine ⟨⟨?_, ?_, by simp, fun _ => rfl, isEnd, wrong⟩, by simp [size, eof]⟩
      · exact fun t isIn => places t (among t isIn)
      · exact fun t isIn => texts t (among t isIn)

/-- The tokens that are taken on the way from one place of a text to another. Others may be skipped
between them. -/
inductive Reaches (origin : Stream) : List Token → Stream → Prop
  | start : Reaches origin [] origin
  | skip {taken : List Token} {s behind : Stream} (reaches : Reaches origin taken s)
    (advanced : s.advance = .ok behind) : Reaches origin taken behind
  | take {taken : List Token} {s behind : Stream} (reaches : Reaches origin taken s)
    (inner : s.next.kind ≠ .eof) (advanced : s.advance = .ok behind) :
    Reaches origin (taken ++ [s.next]) behind

/-- Tokens that are taken one behind the other stand one behind the other. -/
structure Apart (tokens : List Token) : Prop where
  order : ∀ t ∈ tokens, t.span.start ≤ t.span.stop
  apart : tokens.Pairwise (·.span.stop < ·.span.start)

theorem Apart.left {before behind : List Token} (apart : Apart (before ++ behind)) : Apart before :=
  ⟨fun t among => apart.order t (List.mem_append_left behind among),
    (List.pairwise_append.mp apart.apart).1⟩

theorem Apart.right {before behind : List Token} (apart : Apart (before ++ behind)) :
    Apart behind :=
  ⟨fun t among => apart.order t (List.mem_append_right before among),
    (List.pairwise_append.mp apart.apart).2.1⟩

theorem Apart.head {t : Token} {tokens : List Token} (apart : Apart (t :: tokens)) :
    t.span.start ≤ t.span.stop := apart.order t List.mem_cons_self

theorem Apart.tail {t : Token} {tokens : List Token} (apart : Apart (t :: tokens)) : Apart tokens :=
  ⟨fun u among => apart.order u (List.mem_cons_of_mem t among), apart.apart.of_cons⟩

theorem Reaches.ordered {origin : Stream} {taken : List Token} (reaches : origin.Reaches taken s)
    (ordered : origin.Ordered) :
    s.Ordered ∧ Apart taken ∧ ∀ t ∈ taken, t.span.stop < s.next.span.start := by
  induction reaches with
  | start => exact ⟨ordered, ⟨by simp, .nil⟩, by simp⟩
  | skip _ advanced ih =>
    obtain ⟨ordered, apart, before⟩ := ih
    obtain ⟨stillOrdered, precedes⟩ := ordered.advance advanced
    exact ⟨stillOrdered, apart, fun t among => (before t among).trans_le precedes.1⟩
  | @take taken s _ _ inner advanced ih =>
    obtain ⟨ordered, apart, before⟩ := ih
    obtain ⟨stillOrdered, precedes⟩ := ordered.advance advanced
    have order := ordered.stops s.next (by simp [all, toList])
    -- the token that is taken last stands behind the others and, not being the end token, in front
    -- of the next one
    refine ⟨stillOrdered, ⟨?_, ?_⟩, ?_⟩
    · simpa [or_imp, forall_and] using ⟨apart.order, order⟩
    · refine List.pairwise_append.mpr ⟨apart.apart, List.pairwise_singleton _ _, ?_⟩
      intro t among last isLast
      rw [List.mem_singleton.mp isLast]
      exact before t among
    · intro t among
      rcases List.mem_append.mp among with among | isLast
      · exact (before t among).trans_le precedes.1
      · rw [List.mem_singleton.mp isLast]
        exact precedes.2.resolve_left inner

theorem Reaches.sound {origin : Stream} {taken : List Token} (reaches : origin.Reaches taken s)
    (sound : origin.Sound place wrong) :
    s.Sound place wrong ∧ ∀ t ∈ taken, place t.span.start := by
  induction reaches with
  | start => exact ⟨sound, by simp⟩
  | skip _ advanced ih => exact ⟨(ih.1.advance advanced).1, ih.2⟩
  | take _ _ advanced ih =>
    refine ⟨(ih.1.advance advanced).1, fun t among => ?_⟩
    rcases List.mem_append.mp among with among | isLast
    · exact ih.2 t among
    · rw [List.mem_singleton.mp isLast]
      exact ih.1.here

end Token.Stream

namespace Syntax

open Token (Stream Kind)

/-! ### What trees are put together from -/

/-- What can be put together from tokens. -/
inductive Part where
  /-- A token, or the string that several of them are together. -/
  | token (t : Token)
  | tree (n : Node)
  | trees (ns : List Node)
  | entries (es : List (Token × Node))
  /-- A bound of a slice, which may be left out. -/
  | bound (b : Option Node)

/-- The tokens that a part is put together from, in their order. Separators and parentheses leave no
trace in a tree, nor do the brackets of a reference and the closing one of an index. -/
inductive Composed : Part → List Token → Prop
  | token {first t : Token} {others : List Token} (join : joinStrings? first others = some t) :
    Composed (.token t) (first :: others)
  | leaf {t : Token} {tokens : List Token} (ofToken : Composed (.token t) tokens) :
    Composed (.tree (.leaf t)) tokens
  | unary {op : PrefixOp} {mark : Token} {operand : Node} {tokens : List Token}
    (ofOperand : Composed (.tree operand) tokens) :
    Composed (.tree (.unary op operand mark.span.start)) (mark :: tokens)
  | reference {sigil : Token} {path : Node} {tokens : List Token}
    (ofPath : Composed (.tree path) tokens) :
    Composed (.tree (.reference path sigil.span.start)) (sigil :: tokens)
  | binary {op : InfixOp} {left right : Node} {before behind : List Token}
    (ofLeft : Composed (.tree left) before) (ofRight : Composed (.tree right) behind) :
    Composed (.tree (.binary op left right)) (before ++ behind)
  | member {base : Node} {name : Token} {tokens : List Token}
    (ofBase : Composed (.tree base) tokens) :
    Composed (.tree (.member base name)) (tokens ++ [name])
  | index {base operand : Node} {opening : Token} {before behind : List Token}
    (ofBase : Composed (.tree base) before) (ofOperand : Composed (.tree operand) behind) :
    Composed (.tree (.index base operand)) (before ++ opening :: behind)
  | slice {base : Node} {start stop step : Option Node} {opening closing : Token}
    {tokens first second third : List Token} (ofBase : Composed (.tree base) tokens)
    (ofStart : Composed (.bound start) first) (ofStop : Composed (.bound stop) second)
    (ofStep : Composed (.bound step) third) :
    Composed
      (.tree (.slice base ⟨start, stop, step, { opening.span with stop := closing.span.stop }⟩))
      (tokens ++ opening :: (first ++ second ++ third) ++ [closing])
  | list {opening closing : Token} {elements : List Node} {tokens : List Token}
    (ofElements : Composed (.trees elements) tokens) :
    Composed (.tree (.list elements { opening.span with stop := closing.span.stop }))
      (opening :: tokens ++ [closing])
  | mapping {opening closing : Token} {entries : List (Token × Node)} {tokens : List Token}
    (ofEntries : Composed (.entries entries) tokens) :
    Composed (.tree (.mapping entries { opening.span with stop := closing.span.stop }))
      (opening :: tokens ++ [closing])
  /-- A mapping without brackets goes from its first key to its last value. -/
  | body {key : Token} {value : Node} {rest : List (Token × Node)} {span : Span}
    {tokens : List Token} (ofEntries : Composed (.entries ((key, value) :: rest)) tokens)
    (isStart : span.start = key.span.start)
    (isStop : span.stop = (((key, value) :: rest).getLast (by simp)).2.stop) :
    Composed (.tree (.mapping ((key, value) :: rest) span)) tokens
  | noTrees : Composed (.trees []) []
  | trees {n : Node} {ns : List Node} {first rest : List Token}
    (ofFirst : Composed (.tree n) first) (ofRest : Composed (.trees ns) rest) :
    Composed (.trees (n :: ns)) (first ++ rest)
  | noEntries : Composed (.entries []) []
  | entries {key : Token} {value : Node} {es : List (Token × Node)}
    {label tokens rest : List Token} (ofKey : Composed (.token key) label)
    (ofValue : Composed (.tree value) tokens) (ofRest : Composed (.entries es) rest) :
    Composed (.entries ((key, value) :: es)) (label ++ tokens ++ rest)
  | noBound : Composed (.bound none) []
  | bound {n : Node} {tokens : List Token} (ofBound : Composed (.tree n) tokens) :
    Composed (.bound (some n)) tokens

/-- Strings that have texts can be joined. -/
theorem exists_joinStrings? {first : Token} {others : List Token}
    (texts : ∀ t ∈ first :: others, t.value.text?.isSome) :
    ∃ joined, joinStrings? first others = some joined := by
  have values (tokens : List Token) (texts : ∀ t ∈ tokens, t.value.text?.isSome) :
      ∃ values, tokens.mapM (·.value.text?) = some values := by
    induction tokens with
    | nil => exact ⟨[], rfl⟩
    | cons t tokens ih =>
      obtain ⟨isText, others⟩ := List.forall_mem_cons.mp texts
      obtain ⟨value, isValue⟩ := Option.isSome_iff_exists.mp isText
      obtain ⟨values, areValues⟩ := ih others
      exact ⟨value :: values, by simp [List.mapM_cons, isValue, areValues]⟩
  obtain ⟨values, areValues⟩ := values _ texts
  -- a single string is left as it is
  unfold joinStrings?
  cases others.getLast? with
  | none => exact ⟨first, rfl⟩
  | some last =>
    dsimp only
    rw [areValues]
    exact ⟨_, rfl⟩

theorem start_joinStrings? {first joined : Token} {others : List Token}
    (join : joinStrings? first others = some joined) : joined.span.start = first.span.start := by
  unfold joinStrings? at join
  split at join
  · cases join
    rfl
  · obtain ⟨values, -, made⟩ := Option.bind_eq_some_iff.mp join
    cases made
    rfl

theorem Composed.one (t : Token) : Composed (.token t) [t] := .token rfl

/-- A tree behind others. -/
theorem Composed.trees_concat {ns : List Node} {n : Node} {before behind : List Token}
    (ofOthers : Composed (.trees ns) before) (ofLast : Composed (.tree n) behind) :
    Composed (.trees (ns ++ [n])) (before ++ behind) := by
  induction ns generalizing before with
  | nil =>
    cases ofOthers
    simpa using Composed.trees ofLast .noTrees
  | cons first ns ih =>
    cases ofOthers with
    | trees ofFirst ofRest =>
      rw [List.cons_append, List.append_assoc]
      exact .trees ofFirst (ih ofRest)

/-- An entry behind others. -/
theorem Composed.entries_concat {es : List (Token × Node)} {key : Token} {value : Node}
    {before label tokens : List Token} (ofOthers : Composed (.entries es) before)
    (ofKey : Composed (.token key) label) (ofValue : Composed (.tree value) tokens) :
    Composed (.entries (es ++ [(key, value)])) (before ++ label ++ tokens) := by
  induction es generalizing before with
  | nil =>
    cases ofOthers
    simpa using Composed.entries ofKey ofValue .noEntries
  | cons first es ih =>
    cases ofOthers with
    | entries ofFirst ofFirstValue ofRest =>
      have rest := Composed.entries ofFirst ofFirstValue (ih ofRest)
      simpa using rest

/-! ### What rules end in -/

/-- Where a parser has started to read a text, and what is known of the text. -/
structure Course where
  origin : Stream
  place : Location → Prop
  wrong : Token.Error → Prop

namespace Course

/-- The errors of the rules: those of the text, and those of the grammar at a place of the text. -/
def Blames (c : Course) : Error → Prop
  | .token e => c.wrong e
  | .grammar _ location => c.place location
  | .notJoined _ | .exhausted => False

/-- The stream stands behind the tokens that have been taken. -/
structure Stands (c : Course) (taken : List Token) (s : Stream) : Prop where
  reaches : c.origin.Reaches taken s
  sound : s.Sound c.place c.wrong

end Course

/-- A tree of tokens that have been taken, or a document without entries. -/
def Whole (c : Course) (n : Node) : Prop :=
  (∃ taken left, Composed (.tree n) taken ∧ c.Stands taken left) ∨
    ∃ span, n = .mapping [] span ∧ span.stop = span.start ∧ c.place span.start

namespace Course

open LazyConfig.Syntax.Parser

variable {α : Type} {c : Course} {s : Stream} {taken : List Token} {size fewer : Nat}

/-- What has been made on the way from one place of the text to another, with the tokens of it taken
behind the ones before. -/
abbrev Gains (c : Course) (taken : List Token) (s : Stream) (made : α → List Token → Prop) (a : α)
    (left : Stream) : Prop :=
  left.size ≤ s.size ∧ ∃ more, made a more ∧ c.Stands (taken ++ more) left

/-- With less than so many tokens left, the parser takes the tokens of what it makes. -/
def Composes (c : Course) (size : Nat) (p : Parser α) (made : α → List Token → Prop) : Prop :=
  ∀ taken s, c.Stands taken s → s.size < size → Ends c.Blames s p (c.Gains taken s made)

theorem Composes.ends {p : Parser α} {made : α → List Token → Prop} {post : α → Stream → Prop}
    (composes : Composes c size p made) (stands : c.Stands taken s) (small : s.size < size)
    (next : ∀ a more left, made a more → left.size ≤ s.size → c.Stands (taken ++ more) left →
      post a left) : Ends c.Blames s p post := by
  refine (composes taken s stands small).mono ?_
  rintro a left ⟨fewer, more, holds, after⟩
  exact next a more left holds fewer after

theorem Composes.mono {p : Parser α} {made : α → List Token → Prop}
    (composes : Composes c size p made) (smaller : fewer ≤ size) : Composes c fewer p made :=
  fun taken s stands small => composes taken s stands (small.trans_le smaller)

/-! ### Tokens -/

theorem ends_skip {post : Kind → Stream → Prop} (stands : c.Stands taken s)
    (inner : s.next.kind ≠ .eof)
    (next : ∀ left, left.size < s.size → c.Stands taken left → post left.next.kind left) :
    Ends c.Blames s advance post := by
  refine ends_advance (fun e => stands.sound.refused) fun left advanced => ?_
  obtain ⟨sound, fewer⟩ := stands.sound.advance advanced
  have some : 0 < s.size := by simp [Stream.size, inner, Stream.toList]
  exact next left (by omega) ⟨.skip stands.reaches advanced, sound⟩

theorem ends_take {post : Token → Stream → Prop} (stands : c.Stands taken s)
    (inner : s.next.kind ≠ .eof)
    (next : ∀ left, left.size < s.size → c.Stands (taken ++ [s.next]) left → post s.next left) :
    Ends c.Blames s take post := by
  simp only [take, ends_bind, ends_peek, ends_pure]
  refine ends_advance (fun e => stands.sound.refused) fun left advanced => ?_
  obtain ⟨sound, fewer⟩ := stands.sound.advance advanced
  have some : 0 < s.size := by simp [Stream.size, inner, Stream.toList]
  exact next left (by omega) ⟨.take stands.reaches inner advanced, sound⟩

theorem ends_expect {wanted : Kind} {post : Token → Stream → Prop} (stands : c.Stands taken s)
    (inner : wanted ≠ .eof)
    (next : ∀ token left, left.size < s.size → c.Stands (taken ++ [token]) left →
      post token left) : Ends c.Blames s (expect wanted) post := by
  simp only [expect, ends_bind, ends_kind, ends_ite, ends_fail]
  refine ⟨fun found => ?_, fun _ => stands.sound.here⟩
  exact ends_take stands (found ▸ inner) (next s.next)

/-- A token of a kind that leaves no trace. -/
theorem ends_expect_skip {wanted : Kind} {post : Token → Stream → Prop}
    (stands : c.Stands taken s) (inner : wanted ≠ .eof)
    (next : ∀ token left, left.size < s.size → c.Stands taken left → post token left) :
    Ends c.Blames s (expect wanted) post := by
  simp only [expect, ends_bind, ends_kind, ends_ite, ends_fail, take, ends_peek, ends_pure]
  refine ⟨fun found => ?_, fun _ => stands.sound.here⟩
  exact ends_skip stands (found ▸ inner) (next s.next)

theorem ends_skipNewlines {post : Kind → Stream → Prop} (stands : c.Stands taken s)
    (next : ∀ left, left.size ≤ s.size → c.Stands taken left → post left.next.kind left) :
    Ends c.Blames s skipNewlines post := by
  refine ends_loop (fun _ left => left.size ≤ s.size ∧ c.Stands taken left)
    (fun found left => found = left.next.kind ∧ left.size ≤ s.size ∧ c.Stands taken left)
    ⟨le_rfl, stands⟩ ?_ ?_
  · rintro _ here ⟨fewer, stands⟩
    simp only [ends_bind, ends_kind, ends_ite, ends_pure]
    refine ⟨fun isNewline => ?_, fun _ => ⟨rfl, fewer, stands⟩⟩
    exact ends_skip stands (by simp [isNewline]) fun left less stands =>
      ⟨less, by omega, stands⟩
  · rintro found left ⟨rfl, fewer, stands⟩
    exact next left fewer stands

/-! ### Values -/

theorem ends_strings {post : Token → Stream → Prop} (stands : c.Stands taken s)
    (isString : s.next.kind = .string)
    (next : ∀ token others left, joinStrings? s.next others = some token → left.size < s.size →
      c.Stands (taken ++ s.next :: others) left → post token left) :
    Ends c.Blames s strings post := by
  let first := s.next
  have hasText {s : Stream} {taken : List Token} (stands : c.Stands taken s)
      (isString : s.next.kind = .string) : s.next.value.text?.isSome :=
    stands.sound.texts s.next (by simp [Stream.all, Stream.toList]) isString
  have isText := hasText stands isString
  simp only [strings, ends_bind]
  refine ends_take stands (by simp [isString]) fun left less stands => ?_
  -- the strings that follow are collected the last one first
  let collected (others : List Token) (left : Stream) : Prop := left.size < s.size ∧
    (∀ t ∈ others, t.value.text?.isSome) ∧ c.Stands (taken ++ first :: others) left
  refine ends_loop (fun others left => collected others.reverse left) collected
    ⟨less, by simp, stands⟩ ?_ ?_
  · rintro others here ⟨less, texts, stands⟩
    simp only [ends_bind, ends_kind, ends_ite, ends_pure]
    refine ⟨fun isString => ?_, fun _ => ⟨less, texts, stands⟩⟩
    have isText := hasText stands isString
    refine ends_take stands (by simp [isString]) fun left fewer stands => ?_
    refine ⟨fewer, by omega, fun t among => ?_, by simpa using stands⟩
    rcases List.mem_cons.mp (List.mem_reverse.mp among) with rfl | among
    · exact isText
    · exact texts t (List.mem_reverse.mpr among)
  · rintro others left ⟨less, texts, stands⟩
    obtain ⟨joined, join⟩ := exists_joinStrings? (List.forall_mem_cons.mpr ⟨isText, texts⟩)
    rw [join]
    exact ends_pure.mpr (next joined others left join less stands)

theorem ends_value {post : Token → Stream → Prop} (stands : c.Stands taken s)
    (next : ∀ token others left, joinStrings? s.next others = some token → left.size < s.size →
      c.Stands (taken ++ s.next :: others) left → post token left) :
    Ends c.Blames s value post := by
  simp only [value, ends_bind, ends_kind, ends_ite, ends_fail]
  refine ⟨fun _ => stands.sound.here, fun isValue => ⟨fun isString => ?_, fun _ => ?_⟩⟩
  · exact ends_strings stands isString next
  · have inner : s.next.kind ≠ .eof := by
      intro eof
      simp [startsValue, eof] at isValue
    exact ends_take stands inner fun left less stands =>
      next s.next [] left rfl less stands

/-! ### Containers -/

theorem notEnd_of_isSeparator {k : Kind} (separates : isSeparator k) : k ≠ .eof := by
  rintro rfl
  cases separates

variable {nested : Nested}
  (inner : ∀ level, Composes c size (nested level) fun n more => Composed (.tree n) more)

include inner

/-- The body of a list starts at a token of the text. -/
theorem composes_listBody : Composes c size (listBody nested) fun body more =>
    Composed (.trees body.1) more ∧ c.place body.2.start := by
  intro taken s stands small
  simp only [listBody, ends_bind]
  refine ends_skipNewlines stands fun first gap stands => ?_
  rw [ends_peek]
  have isPlace := stands.sound.here
  -- the elements before the stream have been taken, the last one is at the head
  let found (done : List Node) : Stream → Prop :=
    c.Gains taken s (fun elements more => Composed (.trees elements) more) done.reverse
  refine ends_loop found found ⟨gap, [], .noTrees, by simpa using stands⟩ ?_ ?_
  · rintro done here ⟨fewer, more, composed, stands⟩
    simp only [ends_bind, ends_kind, ends_ite, ends_pure]
    refine ⟨fun _ => ⟨fewer, more, composed, stands⟩, fun _ => ?_⟩
    -- the rule of a list takes no token in front of its first element, so what is nested gets on
    -- with all that are left
    refine (inner .disjunction).ends stands (by omega)
      fun element tokens s₁ ofElement less stands => ?_
    have composed : Composed (.trees (element :: done).reverse) (more ++ tokens) := by
      rw [List.reverse_cons]
      exact composed.trees_concat ofElement
    have stands : c.Stands (taken ++ (more ++ tokens)) s₁ := by simpa using stands
    refine ⟨fun _ => ⟨by omega, _, composed, stands⟩, fun separates => ?_⟩
    refine ends_skip stands (notEnd_of_isSeparator (by simpa using separates))
      fun s₂ separator stands => ?_
    refine ends_skipNewlines stands fun left gap stands => ?_
    exact ⟨by omega, by omega, _, composed, stands⟩
  · rintro done left ⟨fewer, more, composed, stands⟩
    exact ends_pure.mpr ⟨fewer, more, ⟨composed, isPlace⟩, stands⟩

theorem composes_list :
    Composes c (size + 1) (list nested) fun n more => Composed (.tree n) more := by
  intro taken s stands small
  simp only [list, ends_bind]
  refine ends_expect stands (by decide) fun opening s₁ opens stands => ?_
  refine (composes_listBody inner).ends stands (by omega) ?_
  rintro ⟨elements, span⟩ tokens s₂ ⟨composed, -⟩ fewer stands
  refine ends_expect stands (by decide) fun closing left closes stands => ?_
  exact ends_pure.mpr ⟨by omega, opening :: tokens ++ [closing], .list composed,
    by simpa using stands⟩

/-- A key that a word or a string starts, a separator and a value. -/
theorem ends_entry {post : Token × Node → Stream → Prop} (stands : c.Stands taken s)
    (small : s.size < size + 1) (isKey : startsKey s.next.kind)
    (next : ∀ key value others tokens left, joinStrings? s.next others = some key →
      Composed (.tree value) tokens → left.size < s.size →
      c.Stands (taken ++ s.next :: others ++ tokens) left → post (key, value) left) :
    Ends c.Blames s (entry nested) post := by
  have notEnd : s.next.kind ≠ .eof := by
    intro eof
    simp [startsKey, eof] at isKey
  -- a key is a word, or the string that a row of strings is together
  have keyed {post : Token → Stream → Prop} (next : ∀ key others left,
      joinStrings? s.next others = some key → left.size < s.size →
        c.Stands (taken ++ s.next :: others) left → post key left) :
      Ends c.Blames s mappingKey post := by
    simp only [mappingKey, ends_bind, ends_kind, ends_ite]
    refine ⟨fun isString => ends_strings stands isString next, fun _ => ?_⟩
    exact ends_take stands notEnd fun left less stands =>
      next s.next [] left rfl less stands
  simp only [entry, ends_bind]
  refine keyed fun key others s₁ join less stands => ?_
  simp only [ends_kind, ends_ite, ends_bind, ends_fail]
  -- what is neither a colon nor an equals sign is reported where it stands
  refine ⟨fun _ => stands.sound.here, fun isSign => ?_⟩
  have notEnd : s₁.next.kind ≠ .eof := by
    intro eof
    exact isSign (by simp [eof])
  refine ends_skip stands notEnd fun s₂ sign stands => ?_
  refine ends_skipNewlines stands fun s₃ gap stands => ?_
  refine (inner .disjunction).ends stands (by omega)
    fun value tokens left ofValue fewer stands => ?_
  exact ends_pure.mpr (next key value others tokens left join ofValue (by omega) stands)

omit inner

/-- The span of a body without brackets: from the first key to the last value, and empty if there
are none. -/
structure BodySpan (entries : List (Token × Node)) (span : Span) : Prop where
  start : ∀ first ∈ entries.head?, span.start = first.1.span.start
  stop : span.stop = (entries.getLast?.map (·.2.stop)).getD span.start

include inner

theorem composes_mappingBody : Composes c (size + 1) (mappingBody nested) fun body more =>
    Composed (.entries body.1) more ∧ BodySpan body.1 body.2 ∧ c.place body.2.start := by
  intro taken s stands small
  simp only [mappingBody, ends_bind]
  refine ends_skipNewlines stands fun body gap stands => ?_
  simp only [ends_peek, ends_ite, ends_bind, ends_fail, ends_pure]
  have isPlace := stands.sound.here
  refine ⟨fun _ => isPlace, fun _ => ?_⟩
  -- until a first entry has been taken, the stream stands where the body starts
  let found (done : List (Token × Node)) (left : Stream) : Prop :=
    left.size ≤ s.size ∧ (done = [] → left = body) ∧
      (∀ first ∈ done.getLast?, body.next.span.start = first.1.span.start) ∧
      ∃ more, Composed (.entries done.reverse) more ∧ c.Stands (taken ++ more) left
  refine ends_loop found found
    ⟨gap, fun _ => rfl, by simp, [], by simpa using Composed.noEntries, by simpa using stands⟩ ?_ ?_
  · rintro done here ⟨fewer, atStart, isFirst, more, composed, stands⟩
    simp only [ends_bind, ends_kind, ends_ite, ends_pure, ends_fail]
    refine ⟨fun _ => ⟨fewer, atStart, isFirst, more, composed, stands⟩, fun isKey => ?_⟩
    refine ends_entry inner stands (by omega) (by simpa using isKey)
      fun key value others tokens s₁ join ofValue less stands => ?_
    have composed : Composed (.entries ((key, value) :: done).reverse)
        (more ++ (here.next :: others) ++ tokens) := by
      rw [List.reverse_cons]
      exact composed.entries_concat (.token join) ofValue
    have isFirst : ∀ first ∈ ((key, value) :: done).getLast?,
        body.next.span.start = first.1.span.start := by
      intro first isLast
      -- a key that is joined from strings starts where the first of them does
      cases done with
      | nil =>
        obtain rfl : (key, value) = first := by simpa using isLast
        rw [start_joinStrings? join, atStart rfl]
      | cons entry done => exact isFirst first (by simpa [List.getLast?_cons_cons] using isLast)
    have grown {left : Stream}
        (stands : c.Stands (taken ++ more ++ here.next :: others ++ tokens) left)
        (fewer : left.size ≤ s.size) : found ((key, value) :: done) left :=
      ⟨fewer, by simp, isFirst, _, composed, by simpa using stands⟩
    -- an entry is followed by a separator, by the end of the body, or by an error
    refine ⟨fun separates => ?_, fun _ => ⟨fun _ => grown stands (by omega),
      fun _ => stands.sound.here⟩⟩
    refine ends_skip stands (notEnd_of_isSeparator separates) fun s₂ separator stands => ?_
    refine ends_skipNewlines stands fun left gap stands => ?_
    exact ⟨by omega, grown stands (by omega)⟩
  · rintro done left ⟨fewer, -, isFirst, more, composed, stands⟩
    refine ⟨fewer, more, ⟨composed, ⟨?_, ?_⟩, isPlace⟩, stands⟩
    · simpa using isFirst
    · simp

theorem composes_mapping :
    Composes c (size + 1) (mapping nested) fun n more => Composed (.tree n) more := by
  intro taken s stands small
  simp only [mapping, ends_bind]
  refine ends_expect stands (by decide) fun opening s₁ opens stands => ?_
  refine (composes_mappingBody inner).ends stands (by omega) ?_
  rintro ⟨entries, span⟩ tokens s₂ ⟨composed, -⟩ fewer stands
  refine ends_expect stands (by decide) fun closing left closes stands => ?_
  exact ends_pure.mpr ⟨by omega, opening :: tokens ++ [closing], .mapping composed,
    by simpa using stands⟩

/-! ### Primaries -/

theorem composes_atom :
    Composes c (size + 1) (atom nested) fun n more => Composed (.tree n) more := by
  intro taken s stands small
  simp only [atom, ends_bind, ends_kind]
  split
  · exact composes_mapping inner taken s stands small
  · exact composes_list inner taken s stands small
  case h_3 dollar =>
    -- the dollar sign is taken, so that the path has less than what the atom started with
    simp only [ends_bind]
    refine ends_take stands (by simp [dollar]) fun s₁ sigil stands => ?_
    refine ends_expect_skip stands (by decide) fun opening s₂ opens stands => ?_
    refine (inner .primary).ends stands (by omega) fun path tokens s₃ ofPath fewer stands => ?_
    refine ends_expect_skip stands (by decide) fun closing left closes stands => ?_
    exact ends_pure.mpr ⟨by omega, s.next :: tokens, .reference ofPath, by simpa using stands⟩
  case h_4 parenthesis =>
    simp only [ends_bind]
    refine ends_skip stands (by simp [parenthesis]) fun s₁ opens stands => ?_
    refine (inner .disjunction).ends stands (by omega) fun n tokens s₂ ofInside fewer stands => ?_
    refine ends_expect_skip stands (by decide) fun closing left closes stands => ?_
    exact ends_pure.mpr ⟨by omega, tokens, ofInside, stands⟩
  · simp only [ends_ite, ends_bind, ends_fail, ends_pure]
    refine ⟨fun _ => ?_, fun _ => stands.sound.here⟩
    exact ends_value stands fun token others left join less stands =>
      ⟨less.le, s.next :: others, .leaf (.token join), stands⟩

theorem composes_sliceElement :
    Composes c size (sliceElement nested) fun n more => Composed (.tree n) more := by
  intro taken s stands small
  simp only [sliceElement, ends_bind]
  refine (composes_listBody inner).ends stands small ?_
  rintro ⟨elements, span⟩ more left ⟨composed, isPlace⟩ fewer stands
  -- any other number of elements is reported where they start
  split
  case h_1 element single =>
    obtain rfl : elements = [element] := single
    cases composed with
    | trees ofElement ofNone =>
      cases ofNone
      exact ends_pure.mpr ⟨fewer, _, ofElement, by simpa using stands⟩
  · exact ends_throw.mpr isPlace

theorem composes_sliceStep :
    Composes c (size + 1) (sliceStep nested) fun b more => Composed (.bound b) more := by
  intro taken s stands small
  simp only [sliceStep, ends_bind, ends_kind, ends_ite, ends_pure]
  refine ⟨fun _ => ⟨le_rfl, [], .noBound, by simpa using stands⟩, fun isColon => ?_⟩
  have isColon : s.next.kind = .colon := by simpa using isColon
  refine ends_skip stands (by simp [isColon]) fun s₁ colon stands => ?_
  refine ⟨fun _ => ⟨colon.le, [], .noBound, by simpa using stands⟩, fun _ => ?_⟩
  refine (composes_sliceElement inner).ends stands (by omega)
    fun n more left ofStep fewer stands => ?_
  exact ⟨by omega, more, .bound ofStep, stands⟩

omit inner in
/-- What stands behind a primary makes another one of it. -/
def Trails (t : Trailer) (more : List Token) : Prop :=
  ∀ base tokens, Composed (.tree base) tokens → Composed (.tree (t.apply base)) (tokens ++ more)

/-- The rest of a slice, behind its opening bracket and its start. -/
theorem ends_sliceRest {opening : Token} {start : Option Node} {first : List Token}
    {post : Trailer → Stream → Prop} (stands : c.Stands (taken ++ opening :: first) s)
    (small : s.size < size + 1) (isColon : s.next.kind = .colon)
    (ofStart : Composed (.bound start) first)
    (next : ∀ t more left, Trails t more → left.size < s.size → c.Stands (taken ++ more) left →
      post t left) : Ends c.Blames s (sliceRest nested opening start) post := by
  simp only [sliceRest, ends_bind]
  refine ends_skip stands (by simp [isColon]) fun s₁ colon stands => ?_
  -- what follows the second bound is the same whether there is one or not
  have rest : ∀ stop second s₂, Composed (.bound stop) second → s₂.size ≤ s₁.size →
      c.Stands (taken ++ opening :: first ++ second) s₂ →
      Ends c.Blames s₂ (sliceStep nested) fun step left =>
        Ends c.Blames left (expect .rightBracket) fun closing left => post (.slice
          ⟨start, stop, step, { opening.span with stop := closing.span.stop }⟩) left := by
    intro stop second s₂ ofStop fewer stands
    refine (composes_sliceStep inner).ends stands (by omega)
      fun step third s₃ ofStep fewer stands => ?_
    refine ends_expect stands (by decide) fun closing left closes stands => ?_
    refine next _ (opening :: (first ++ second ++ third) ++ [closing]) left ?_ (by omega)
      (by simpa using stands)
    intro base tokens ofBase
    have sliced : Composed (.tree (.slice base
        ⟨start, stop, step, { opening.span with stop := closing.span.stop }⟩))
        (tokens ++ opening :: (first ++ second ++ third) ++ [closing]) :=
      .slice ofBase ofStart ofStop ofStep
    simpa [Trailer.apply] using sliced
  simp only [ends_ite, ends_bind, ends_pure, ends_map]
  refine ⟨fun _ => rest none [] s₁ .noBound le_rfl (by simpa using stands), fun _ => ?_⟩
  refine (composes_sliceElement inner).ends stands (by omega)
    fun stop second s₂ ofStop fewer stands => ?_
  exact rest (some stop) second s₂ (.bound ofStop) fewer stands

theorem ends_trailer {post : Trailer → Stream → Prop} (stands : c.Stands taken s)
    (small : s.size < size + 1)
    (next : ∀ t more left, Trails t more → left.size < s.size → c.Stands (taken ++ more) left →
      post t left) : Ends c.Blames s (trailer nested) post := by
  simp only [trailer, ends_bind, ends_kind, ends_ite, ends_pure]
  refine ⟨fun _ => ?_, fun opens => ?_⟩
  · refine ends_expect_skip stands (by decide) fun dot s₁ isDot stands => ?_
    refine ends_expect stands (by decide) fun name left isWord stands => ?_
    exact next _ [name] left (fun base tokens ofBase => .member ofBase) (by omega) stands
  · have opens : s.next.kind = .leftBracket := by simpa using opens
    -- a colon behind the bracket starts a slice without a first bound; behind an element it tells a
    -- slice from an index
    refine ends_take stands (by simp [opens]) fun s₁ opening stands => ⟨fun isColon => ?_,
      fun _ => ?_⟩
    · exact ends_sliceRest inner stands (by omega) isColon .noBound
        fun t more left trails less stands => next t more left trails (by omega) stands
    · refine (composes_sliceElement inner).ends stands (by omega)
        fun element tokens s₂ ofElement fewer stands => ⟨fun isColon => ?_, fun _ => ?_⟩
      · exact ends_sliceRest inner (by simpa using stands) (by omega) isColon (.bound ofElement)
          fun t more left trails less stands => next t more left trails (by omega) stands
      · refine ends_expect_skip stands (by decide) fun closing left closes stands => ?_
        refine next _ (s.next :: tokens) left (fun base more ofBase => ?_) (by omega)
          (by simpa using stands)
        exact .index ofBase ofElement

theorem composes_primary :
    Composes c (size + 1) (primary nested) fun n more => Composed (.tree n) more := by
  intro taken s stands small
  simp only [primary, ends_bind]
  refine (composes_atom inner).ends stands small fun base tokens s₁ ofBase fewer stands => ?_
  refine ends_iterate (c.Gains taken s fun n more => Composed (.tree n) more)
    ⟨fewer, tokens, ofBase, stands⟩ ?_
  rintro base here ⟨fewer, more, ofBase, stands⟩
  simp only [ends_bind, ends_kind, ends_ite, ends_pure]
  -- what has been made up to a trailer is the base of it
  refine ⟨fun _ => ?_, fun _ => ⟨fewer, more, ofBase, stands⟩⟩
  refine ends_trailer inner stands (by omega) fun t tokens left trails less stands => ?_
  exact ⟨less, by omega, more ++ tokens, trails base more ofBase, by simpa using stands⟩

/-! ### Operators -/

/-- A parser of expressions. -/
abbrev Expresses (c : Course) (size : Nat) (p : Parser Node) : Prop :=
  Composes c size p fun n more => Composed (.tree n) more

theorem expresses_powerOf {exponent : Parser Node} (right : Expresses c size exponent) :
    Expresses c (size + 1) (powerOf nested exponent) := by
  intro taken s stands small
  simp only [powerOf, ends_bind, ends_kind, ends_ite, ends_pure]
  refine (composes_primary inner).ends stands small fun base tokens s₁ ofBase fewer stands => ?_
  refine ⟨fun _ => ⟨fewer, tokens, ofBase, stands⟩, fun isPower => ?_⟩
  have isPower : s₁.next.kind = .power := by simpa using isPower
  refine ends_skip stands (by simp [isPower]) fun s₂ mark stands => ?_
  refine right.ends stands (by omega) fun exponent more left ofRight fewer stands => ?_
  exact ⟨by omega, tokens ++ more, .binary ofBase ofRight, by simpa using stands⟩

omit inner in
theorem notEnd_of_sign? {k : Kind} {op : PrefixOp} (found : PrefixOp.sign? k = some op) :
    k ≠ .eof := by
  rintro rfl
  cases found

/-- Every sign takes a token, and an element of the budget. -/
theorem expresses_signWithin (budget : List Token) (within : fewer ≤ budget.length)
    (smaller : fewer ≤ size + 1) : Expresses c fewer (signWithin nested budget) := by
  induction budget generalizing fewer with
  | nil =>
    intro taken s stands small
    exact absurd (small.trans_le within) (Nat.not_lt_zero _)
  | cons _ budget ih =>
    cases fewer with
    | zero => exact fun _ _ _ small => absurd small (Nat.not_lt_zero _)
    | succ fewer =>
      have right : Expresses c fewer (signWithin nested budget) :=
        ih (Nat.le_of_succ_le_succ within) (by omega)
      have inner (level : Level) : Expresses c fewer (nested level) :=
        (inner level).mono (Nat.le_of_succ_le_succ smaller)
      intro taken s stands small
      simp only [signWithin, ends_bind, ends_kind]
      split
      case h_1 op found =>
        -- the sign is taken, so that one element less is enough for its operand
        simp only [ends_bind]
        refine ends_take stands (notEnd_of_sign? found) fun s₁ mark stands => ?_
        refine right.ends stands (by omega) fun operand tokens left ofOperand less stands => ?_
        exact ends_pure.mpr ⟨by omega, s.next :: tokens, .unary ofOperand, by simpa using stands⟩
      case h_2 => exact expresses_powerOf inner right taken s stands small

theorem expresses_sign : Expresses c (size + 1) (sign nested) := by
  intro taken s stands small
  simp only [sign, ends_bind, ends_get]
  have enough : s.size + 1 ≤ (s.next :: s.toList).length := Nat.succ_le_succ s.size_le
  exact expresses_signWithin inner _ enough small taken s stands (Nat.lt_succ_self _)

theorem expresses_power : Expresses c (size + 1) (power nested) :=
  expresses_powerOf inner ((expresses_sign inner).mono (Nat.le_succ _))

omit inner in
theorem notEnd_of_at? {level : Level} {k : Kind} {op : InfixOp}
    (found : InfixOp.at? level k = some op) : k ≠ .eof := by
  obtain ⟨-, rfl⟩ := InfixOp.eq_of_at? found
  cases op <;> decide

omit inner in
theorem expresses_chain {level : Level} {operand : Parser Node}
    (operands : Expresses c size operand) : Expresses c size (chain level operand) := by
  intro taken s stands small
  simp only [chain, ends_bind]
  refine operands.ends stands small fun left tokens s₁ ofLeft fewer stands => ?_
  -- what stands left of the next operator is the tree of all operands so far
  refine ends_iterate (c.Gains taken s fun n more => Composed (.tree n) more)
    ⟨fewer, tokens, ofLeft, stands⟩ ?_
  rintro left here ⟨fewer, more, ofLeft, stands⟩
  simp only [ends_bind, ends_kind]
  split
  case h_1 op known =>
    simp only [ends_bind]
    refine ends_skip stands (notEnd_of_at? known) fun s₂ mark stands => ?_
    refine operands.ends stands (by omega) fun right tokens s₃ ofRight less stands => ?_
    exact ends_pure.mpr ⟨by omega, by omega, more ++ tokens, .binary ofLeft ofRight,
      by simpa using stands⟩
  case h_2 => exact ends_pure.mpr ⟨fewer, more, ofLeft, stands⟩

theorem expresses_product : Expresses c (size + 1) (product nested) :=
  expresses_chain (expresses_sign inner)

theorem expresses_sum : Expresses c (size + 1) (sum nested) :=
  expresses_chain (expresses_product inner)

theorem expresses_shift : Expresses c (size + 1) (shift nested) :=
  expresses_chain (expresses_sum inner)

theorem expresses_bitAnd : Expresses c (size + 1) (bitAnd nested) :=
  expresses_chain (expresses_shift inner)

theorem expresses_bitXor : Expresses c (size + 1) (bitXor nested) :=
  expresses_chain (expresses_bitAnd inner)

theorem expresses_bitOr : Expresses c (size + 1) (bitOr nested) :=
  expresses_chain (expresses_bitXor inner)

omit inner in
theorem ends_comparisonKind {post : Kind → Stream → Prop} (stands : c.Stands taken s)
    (starts : startsComparison s.next.kind)
    (next : ∀ found left, left.size < s.size → c.Stands taken left → post found left) :
    Ends c.Blames s comparisonKind post := by
  have notEnd : s.next.kind ≠ .eof := by
    intro eof
    simp [startsComparison, eof] at starts
  simp only [comparisonKind, take, ends_bind, ends_peek, ends_pure]
  refine ends_skip stands notEnd fun s₁ mark stands => ?_
  -- `is not` and `not in` are two tokens, all others one
  split
  · simp only [ends_bind, ends_kind, ends_ite, ends_pure]
    refine ⟨fun isNot => ?_, fun _ => next _ s₁ mark stands⟩
    exact ends_skip stands (by simp [isNot]) fun left second stands =>
      next _ left (by omega) stands
  · simp only [ends_bind]
    exact ends_expect_skip stands (by decide) fun _ left second stands =>
      ends_pure.mpr (next _ left (by omega) stands)
  · exact ends_pure.mpr (next _ s₁ mark stands)

theorem expresses_comparison : Expresses c (size + 1) (comparison nested) := by
  intro taken s stands small
  simp only [comparison, ends_bind, ends_kind, ends_ite, ends_pure]
  refine (expresses_bitOr inner).ends stands small fun left tokens s₁ ofLeft fewer stands => ?_
  refine ⟨fun _ => ⟨fewer, tokens, ofLeft, stands⟩, fun starts => ?_⟩
  refine ends_comparisonKind stands (by simpa using starts) fun found s₂ less stands => ?_
  split
  · simp only [ends_bind]
    refine (expresses_bitOr inner).ends stands (by omega)
      fun right more s₃ ofRight fewer stands => ?_
    exact ends_pure.mpr ⟨by omega, tokens ++ more, .binary ofLeft ofRight, by simpa using stands⟩
  · exact stands.sound.here

theorem expresses_negationWithin (budget : List Token) (within : fewer ≤ budget.length)
    (smaller : fewer ≤ size + 1) : Expresses c fewer (negationWithin nested budget) := by
  induction budget generalizing fewer with
  | nil =>
    intro taken s stands small
    exact absurd (small.trans_le within) (Nat.not_lt_zero _)
  | cons _ budget ih =>
    cases fewer with
    | zero => exact fun _ _ _ small => absurd small (Nat.not_lt_zero _)
    | succ fewer =>
      intro taken s stands small
      simp only [negationWithin, ends_bind, ends_kind, ends_ite]
      refine ⟨fun _ => (expresses_comparison inner).mono smaller taken s stands small,
        fun isNot => ?_⟩
      have isNot : s.next.kind = .not := not_not.mp isNot
      refine ends_take stands (by simp [isNot]) fun s₁ mark stands => ?_
      refine (ih (Nat.le_of_succ_le_succ within) (by omega)).ends stands (by omega)
        fun operand tokens left ofOperand less stands => ?_
      exact ends_pure.mpr ⟨by omega, s.next :: tokens, .unary ofOperand, by simpa using stands⟩

theorem expresses_negation : Expresses c (size + 1) (negation nested) := by
  intro taken s stands small
  simp only [negation, ends_bind, ends_get]
  have enough : s.size + 1 ≤ (s.next :: s.toList).length := Nat.succ_le_succ s.size_le
  exact expresses_negationWithin inner _ enough small taken s stands (Nat.lt_succ_self _)

theorem expresses_conjunction : Expresses c (size + 1) (conjunction nested) :=
  expresses_chain (expresses_negation inner)

theorem expresses_ofLevel (level : Level) : Expresses c (size + 1) (ofLevel nested level) := by
  cases level with
  | disjunction => exact expresses_chain (expresses_conjunction inner)
  | conjunction => exact expresses_conjunction inner
  | negation => exact expresses_negation inner
  | comparison => exact expresses_comparison inner
  | bitOr => exact expresses_bitOr inner
  | bitXor => exact expresses_bitXor inner
  | bitAnd => exact expresses_bitAnd inner
  | shift => exact expresses_shift inner
  | sum => exact expresses_sum inner
  | product => exact expresses_product inner
  | sign => exact expresses_sign inner
  | power => exact expresses_power inner
  | primary => exact composes_primary inner

omit inner

/-- A depth of nesting is enough for all expressions of fewer tokens. -/
theorem expresses_nest (depth : Nat) (level : Level) : Expresses c depth (nest depth level) := by
  induction depth generalizing level with
  | zero => exact fun _ _ _ small => absurd small (Nat.not_lt_zero _)
  | succ depth ih => exact expresses_ofLevel ih level

/-! ### Whole texts -/

theorem ends_withNesting {α : Type} {rule : Nested → Parser α} {post : α → Stream → Prop}
    (ends : ∀ size nested, s.size < size →
      (∀ level, Expresses c size (nested level)) → Ends c.Blames s (rule nested) post) :
    Ends c.Blames s (withNesting rule) post := by
  simp only [withNesting, ends_bind, ends_get]
  refine ends _ _ ?_ fun level => expresses_nest _ level
  exact s.size_le.trans_lt (Nat.lt_succ_self _)

theorem ends_container {nested : Nested} (inner : ∀ level, Expresses c size (nested level))
    (stands : c.Stands [] s) (small : s.size < size) :
    Ends c.Blames s (container nested) fun root left =>
      left.Sound c.place c.wrong ∧ Whole c root := by
  -- line breaks behind the container are skipped
  have ends {taken : List Token} {root : Node} {s : Stream} (stands : c.Stands taken s)
      (whole : Whole c root) :
      Ends c.Blames s skipNewlines fun _ left => left.Sound c.place c.wrong ∧ Whole c root :=
    ends_skipNewlines stands fun left _ stands => ⟨stands.sound, whole⟩
  simp only [container, ends_bind]
  refine ends_skipNewlines stands fun s₁ gap stands => ?_
  simp only [ends_ite, ends_bind, ends_pure, ends_fail]
  refine ⟨fun _ => ?_, fun _ => ⟨fun _ => ?_, fun _ => ⟨fun _ => ?_, fun _ =>
    stands.sound.here⟩⟩⟩
  · exact (composes_mapping inner).ends stands (by omega) fun root tokens left made _ stands =>
      ends stands (.inl ⟨tokens, left, made, by simpa using stands⟩)
  · exact (composes_list inner).ends stands (by omega) fun root tokens left made _ stands =>
      ends stands (.inl ⟨tokens, left, made, by simpa using stands⟩)
  · refine (composes_mappingBody inner).ends stands (by omega) ?_
    rintro ⟨entries, span⟩ tokens left ⟨made, bodySpan, isPlace⟩ - stands
    apply ends stands
    -- a body without entries has no tokens, but its place is that of one
    cases entries with
    | nil => exact .inr ⟨span, rfl, by simpa using bodySpan.stop, isPlace⟩
    | cons entry rest =>
      refine .inl ⟨tokens, left, .body made (bodySpan.start entry rfl) ?_, by simpa using stands⟩
      rw [bodySpan.stop, List.getLast?_eq_some_getLast (by simp)]
      rfl

/-- The rule of a document, that of `Document.load`. -/
theorem ends_rootTree (stands : c.Stands [] s) :
    Ends c.Blames s Document.rootTree fun root _ => Whole c root := by
  simp only [Document.rootTree, ends_bind]
  refine ends_withNesting fun size nested small inner =>
    (ends_container inner stands small).mono ?_
  rintro root left ⟨sound, whole⟩
  split
  · simp only [ends_bind, ends_pure, expect, ends_kind, ends_ite, ends_fail, take, ends_peek]
    refine ⟨fun _ => ?_, fun _ => sound.here⟩
    exact ends_advance (fun e => sound.refused) fun _ _ => whole
  · exact whole

end Course

/-! ### Streams of texts -/

/-- The stream of readings of which only the last may be an error, and is one or an end token. -/
theorem sound_ofReadings {place : Location → Prop} {wrong : Token.Error → Prop} {s : Stream}
    {tokens : List Token} {last : Except Token.Error Token}
    (made : Stream.ofReadings (tokens.map .ok ++ [last]) = .ok s)
    (inner : ∀ t ∈ tokens, t.kind ≠ .eof) (isEnd : ∀ t, last = .ok t → t.kind = .eof)
    (places : ∀ t, .ok t ∈ tokens.map .ok ++ [last] → place t.span.start)
    (texts : ∀ t, .ok t ∈ tokens.map .ok ++ [last] → t.kind = .string → t.value.text?.isSome)
    (isWrong : ∀ e, last = .error e → wrong e) : s.Sound place wrong := by
  have readings (t : Token) (among : t ∈ s.all) : .ok t ∈ tokens.map .ok ++ [last] := by
    cases tokens with
    | nil =>
      cases last with
      | error e => cases made
      | ok token =>
        cases made
        simpa [Stream.all, Stream.toList, Except.toOption] using among
    | cons first tokens =>
      cases made
      cases last <;> simpa [Stream.all, Stream.toList, Except.toOption, List.filterMap_map,
        Function.comp_def] using among
  -- the first reading is the next token, the ones behind it are the rest, the last is the ending
  refine ⟨fun t among => places t (readings t among), fun t among => texts t (readings t among),
    ?_, ?_, ?_, ?_⟩
  all_goals
    cases tokens with
    | nil =>
      cases last with
      | error e => cases made
      | ok token =>
        cases made
        simp_all
    | cons first tokens =>
      cases made
      simp_all [Except.toOption, List.filterMap_map, Function.comp_def]

/-- The stream of a text, if something is known of the readings of the text. -/
theorem sound_ofText {place : Location → Prop} {wrong : Token.Error → Prop} {text : Text.Decoded}
    {source : Nat} {s : Stream} (made : Stream.ofText text source = .ok s)
    (places : ∀ t, .ok t ∈ ((Token.Cursor.ofText text source).tokens false).1 → place t.span.start)
    (isWrong : ∀ e, .error e ∈ ((Token.Cursor.ofText text source).tokens false).1 → wrong e) :
    s.Sound place wrong := by
  obtain ⟨tokens, last, all, inner, isEnd⟩ :=
    Token.exists_readings (Nat.lt_succ_self (Token.Cursor.ofText text source).rest.length)
  have all : ((Token.Cursor.ofText text source).tokens false).1 = tokens.map .ok ++ [last] := all
  have texts (t : Token) (among : .ok t ∈ ((Token.Cursor.ofText text source).tokens false).1)
      (isString : t.kind = .string) : t.value.text?.isSome := by
    have legible := Token.legible_of_readAll among (by simp [isString]) (by simp [isString])
    exact legible.hasText_of_string isString
  rw [Stream.ofText, Stream.ofCursor, all] at made
  rw [all] at places isWrong texts
  refine sound_ofReadings made inner isEnd places texts fun e isError => ?_
  exact isWrong e (by simp [isError])

end Syntax

end LazyConfig
