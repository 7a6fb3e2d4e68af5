import LazyConfig.Proofs.Syntax.Completeness

/-!
# Documents are parsed by their layout

A sequence of tokens is parsed as a document exactly if it has the layout of one, and then the tree
is the one of this layout: no entry is lost, and the entries stand in the order of the text.
-/

namespace LazyConfig.Syntax

open Token (Stream Kind)

namespace Parser

variable {ending : Token} {tokens newlines : List Token} {nested : Nested} {tree : Node}
  {items : List (Token × Node)}

/-! ### Line ends around a document -/

/-- Line ends behind the body of a mapping belong to it: the first one is a separator. -/
theorem derives_entries_append (body : Derives (.entries items) tokens)
    (areNewlines : AreNewlines newlines) : Derives (.entries items) (tokens ++ newlines) := by
  generalize isPhrase : Phrase.entries items = phrase at body
  induction body generalizing items with
  | noEntries lead =>
    cases isPhrase
    exact .noEntries (areNewlines_append lead areNewlines)
  | lastEntry lead ofEntry =>
    cases isPhrase
    cases newlines with
    | nil => simpa using Derives.lastEntry lead ofEntry
    | cons t newlines =>
      have isNewline : isSeparator t.kind := by simp [isSeparator, areNewlines t (by simp)]
      exact .entry lead ofEntry isNewline (.noEntries fun t among => areNewlines t (by simp [among]))
  | entry lead ofEntry separates ofRest _ ih =>
    cases isPhrase
    rw [List.append_assoc]
    exact .entry lead ofEntry separates (ih rfl)
  | _ => cases isPhrase

variable (isEnd : ending.kind = .eof)

include isEnd

theorem reads_container {depth : Nat} (layout : Layout tree tokens)
    (enough : tokens.length < depth) :
    Reads ending (container (nest depth)) tokens [] (·.bare = tree) := by
  obtain ⟨before, root, behind, lead, trail, isRoot, rfl⟩ := layout
  simp only [List.length_append] at enough
  have notNewline : headKind ([] : List Token) ≠ .newline := by decide
  cases isRoot with
  | enclosed ofContainer =>
    have ends (node : Node) (isTree : node.bare = tree) : Reads ending (do
        let _ ← skipNewlines
        return node) behind [] (·.bare = tree) :=
      (reads_skipNewlines isEnd trail notNewline).andThen fun _ _ => reads_pure isTree
    have starts {k : Kind} (isKind : headKind root = k) (notEnd : k ≠ .eof) :
        headKind (root ++ behind ++ []) = k := by
      cases root with
      | nil => exact absurd isKind.symm notEnd
      | cons => exact isKind
    rw [List.append_assoc]
    rcases completes isEnd ofContainer depth (by omega) (behind ++ []) with
      ⟨bracket, reads⟩ | ⟨curly, reads⟩
    · have front := starts bracket (by decide)
      refine (reads_skipNewlines isEnd lead (by rw [front]; decide)).bind fun found isFound => ?_
      simp only [isFound, front, reduceCtorEq, if_false, if_true]
      exact reads.bind ends
    · have front := starts curly (by decide)
      refine (reads_skipNewlines isEnd lead (by rw [front]; decide)).bind fun found isFound => ?_
      simp only [isFound, front, if_true]
      exact reads.bind ends
  | @entries _ items ofBody =>
    have whole := derives_entries_append (derives_entries_newlines lead ofBody) trail
    obtain ⟨newlines, core, same, areNewlines, front, loop⟩ :=
      completes isEnd whole depth (by simp only [List.length_append]; omega) [] rfl
    rw [same]
    have body : ReadsEntries ending (nest depth) core [] items :=
      ⟨[], core, rfl, by simp [AreNewlines], front, loop⟩
    have isBody : headKind (core ++ []) = .eof ∨ startsKey (headKind (core ++ [])) := by
      rw [List.append_nil]
      rcases front with ⟨rfl, -⟩ | key
      · exact .inl rfl
      · exact .inr key
    have kinds : headKind (core ++ []) ≠ .leftCurly ∧ headKind (core ++ []) ≠ .leftBracket ∧
        headKind (core ++ []) ≠ .newline ∧
        (startsKey (headKind (core ++ [])) || headKind (core ++ []) = .eof) = true := by
      generalize headKind (core ++ []) = k at isBody
      rcases isBody with rfl | key
      · decide
      · cases k <;> first | contradiction | decide
    refine (reads_skipNewlines isEnd areNewlines kinds.2.2.1).bind fun found isFound => ?_
    rw [isFound]
    simp only [kinds.1, kinds.2.1, kinds.2.2.2, if_false, if_true]
    have mapped := reads_mappingBody isEnd body (show endsBody (headKind []) by decide)
    refine mapped.andThen fun found same => ?_
    have none : AreNewlines [] := by simp [AreNewlines]
    refine (reads_skipNewlines isEnd none notNewline).andThen fun _ _ => reads_pure ?_
    rw [Node.bare, Node.entriesBare_eq, ← same]
    rfl

omit isEnd in
/-- A document is read up to the end of its tokens. -/
theorem run_document (text : Sentence) (layout : Layout tree text.tokens) :
    ∃ root, Syntax.document.run text.stream = (.ok root, streamOf text.ending []) ∧
      root.bare = tree := by
  have enough : text.tokens.length < text.stream.rest.length + 2 := by
    unfold Sentence.stream
    cases text.tokens with
    | nil => exact Nat.zero_lt_succ _
    | cons t rest => exact Nat.lt_succ_self _
  obtain ⟨root, ran, isTree⟩ := reads_container text.isEnd layout enough
  refine ⟨root, ?_, isTree⟩
  have nested : (withNesting container).run text.stream = (.ok root, streamOf text.ending []) := by
    rw [withNesting, run_bind, run_get]
    simpa [Sentence.stream] using ran
  have ends : (expect .eof).run (streamOf text.ending []) =
      (.ok text.ending, streamOf text.ending []) := by
    have isKind : Parser.kind.run (streamOf text.ending []) =
        (.ok text.ending.kind, streamOf text.ending []) := rfl
    rw [expect, run_bind, isKind]
    simp only [text.isEnd, if_true]
    rfl
  rw [Syntax.document, run_bind, nested]
  dsimp only
  rw [run_bind, ends]
  rfl

omit isEnd in
/-- What is read as a document has the layout of one. -/
theorem layout_of_document {text : Sentence} {root : Node} {left : Stream}
    (read : Syntax.document.run text.stream = (.ok root, left)) :
    Layout root.bare text.tokens := by
  have yields : Yields text.stream Syntax.document fun root _ => Layout root.bare text.tokens := by
    simp only [Syntax.document, withNesting, yields_bind, yields_get]
    refine (takes_container (expresses_nest _)).yields text.behind_stream ?_
    rintro root more left layout ⟨rest, isText, isLeft⟩
    simp only [yields_expect, yields_pure]
    intro isEof _ _
    -- no end token is among the tokens, so that none is left
    have all : rest = [] := by
      cases rest with
      | nil => rfl
      | cons t rest =>
        subst isLeft
        exact absurd isEof (text.inner t (by simp [isText]))
    rw [isText, all]
    simpa using layout
  exact yields root left read

end Parser

/-! ### The tokens of a text -/

/-- The tokens of a text without a lexical error are those of a sentence. -/
theorem Sentence.exists_stream {text : Text.Decoded} {source : Nat} {s : Stream} {ending : Token}
    (made : Stream.ofText text source = .ok s) (ends : s.ending = .ok ending) :
    ∃ sentence : Sentence, sentence.stream = s := by
  obtain ⟨tokens, last, all, inner, isEnd⟩ :=
    Token.exists_readings (Nat.lt_succ_self (Token.Cursor.ofText text source).rest.length)
  rw [Stream.ofText, Stream.ofCursor, Token.Cursor.tokens, all] at made
  cases tokens with
  | nil =>
    cases last with
    | error e => cases made
    | ok token =>
      cases made
      exact ⟨⟨[], token, by simp, isEnd token rfl⟩, rfl⟩
  | cons first tokens =>
    cases made
    obtain rfl : last = .ok ending := by simpa using ends
    refine ⟨⟨first :: tokens, ending, inner, isEnd ending rfl⟩, ?_⟩
    simp [Sentence.stream, streamOf, Except.toOption, List.filterMap_map, Function.comp_def]

/-! ### Documents and layouts -/

/-- Tokens are read as a document exactly if they have the layout of one, and the tree is the one of
this layout. Two texts with layouts of one tree are read as the same tree but for its locations. -/
theorem document_iff_layout (text : Sentence) :
    (∀ tree, (∃ root left, Syntax.document.run text.stream = (.ok root, left) ∧ root.bare = tree) ↔
      Layout tree text.tokens) ∧
    ∀ (other : Sentence) (tree : Node), Layout tree text.tokens → Layout tree other.tokens →
      ∃ root left same behind, Syntax.document.run text.stream = (.ok root, left) ∧
        Syntax.document.run other.stream = (.ok same, behind) ∧ root.bare = same.bare := by
  refine ⟨fun tree => ⟨?_, fun layout => ?_⟩, fun other tree first second => ?_⟩
  · rintro ⟨root, left, read, rfl⟩
    exact Parser.layout_of_document read
  · obtain ⟨root, read, isTree⟩ := Parser.run_document text layout
    exact ⟨root, _, read, isTree⟩
  · obtain ⟨root, read, isTree⟩ := Parser.run_document text first
    obtain ⟨same, readOther, isSame⟩ := Parser.run_document other second
    exact ⟨root, _, same, _, read, readOther, isTree.trans isSame.symm⟩

/-- An entry in one line, and the same with line ends around it and inside of it. -/
def shortEntry : Sentence where
  tokens := [⟨.word, "a", .text "a", {}⟩, ⟨.colon, ":", .absent, {}⟩, ⟨.integer, "1", .int 1, {}⟩]
  ending := ⟨.eof, "", .absent, {}⟩
  inner := by decide
  isEnd := rfl

def longEntry : Sentence where
  tokens := [⟨.newline, "", .absent, {}⟩, ⟨.word, "a", .text "a", {}⟩, ⟨.assign, "=", .absent, {}⟩,
    ⟨.newline, "", .absent, {}⟩, ⟨.integer, "1", .int 1, {}⟩, ⟨.newline, "", .absent, {}⟩]
  ending := ⟨.eof, "", .absent, {}⟩
  inner := by decide
  isEnd := rfl

theorem document_iff_layout_entry :
    ∃ root left same behind, Syntax.document.run shortEntry.stream = (.ok root, left) ∧
      Syntax.document.run longEntry.stream = (.ok same, behind) ∧ root.bare = same.bare := by
  have newline (span : Span) : AreNewlines [⟨.newline, "", .absent, span⟩] := by
    simp [AreNewlines]
  have one : Derives (.expression .disjunction (.leaf ⟨.integer, "1", .int 1, {}⟩))
      [⟨.integer, "1", .int 1, {}⟩] :=
    (Derives.value (t := ⟨.integer, "1", .int 1, {}⟩) rfl (by decide)).loosen (by decide)
  have key : Key [⟨.word, "a", .text "a", {}⟩] ⟨.word, "a", .text "a", {}⟩ :=
    .word (t := ⟨.word, "a", .text "a", {}⟩) rfl
  have none : AreNewlines [] := by simp [AreNewlines]
  refine (document_iff_layout shortEntry).2 longEntry
    (.mapping [(⟨.word, "a", .text "a", {}⟩, .leaf ⟨.integer, "1", .int 1, {}⟩)] {}) ?_ ?_
  · exact ⟨[], shortEntry.tokens, [], none, none,
      .entries (.lastEntry none (.keyed key (.inl rfl) none one)), rfl⟩
  · exact ⟨[⟨.newline, "", .absent, {}⟩], _, [⟨.newline, "", .absent, {}⟩], newline {}, newline {},
      .entries (.lastEntry none (.keyed key (.inr rfl) (newline {}) one)), rfl⟩

end LazyConfig.Syntax
