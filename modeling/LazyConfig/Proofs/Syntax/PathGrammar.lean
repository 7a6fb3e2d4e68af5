import LazyConfig.Proofs.Syntax.Broken
import LazyConfig.Proofs.Syntax.Document
import LazyConfig.Proofs.Syntax.Placeless
import LazyConfig.Proofs.Token.Legible
import LazyConfig.Syntax.Path

/-!
# Texts that are paths

A text is read as a path exactly if its tokens make up a primary that starts with a word. Nothing may
follow the primary, no error either, and the path is the tree of it.
-/

namespace LazyConfig

namespace Syntax

open Token (Stream)

/-! ### Streams of texts -/

theorem ofReadings_eq (tokens : List Token) (ending : Token) :
    Stream.ofReadings (tokens.map .ok ++ [.ok ending]) = .ok (streamOf ending tokens) := by
  cases tokens with
  | nil => rfl
  | cons first tokens =>
    simp [Stream.ofReadings, streamOf, Except.toOption, List.filterMap_map, Function.comp_def]

/-- A stream tells its tokens, because only the last one is an end token. -/
theorem eq_of_streamOf_eq {tokens others : List Token} {ending other : Token}
    (inner : ∀ t ∈ tokens, t.kind ≠ .eof) (othersInner : ∀ t ∈ others, t.kind ≠ .eof)
    (isEnd : ending.kind = .eof) (otherEnd : other.kind = .eof)
    (same : streamOf ending tokens = streamOf other others) : tokens = others ∧ ending = other := by
  cases tokens with
  | nil =>
    cases others with
    | nil =>
      cases same
      exact ⟨rfl, rfl⟩
    | cons first others =>
      cases same
      exact absurd isEnd (othersInner ending (by simp))
  | cons first tokens =>
    cases others with
    | nil =>
      cases same
      exact absurd isEnd (inner ending (by simp))
    | cons second others =>
      cases same
      exact ⟨rfl, rfl⟩

/-- The readings of a sentence are its tokens. -/
theorem Sentence.readings {text : Sentence} {string : String} {source : Nat}
    (made : Stream.ofString string source = .ok text.stream) :
    ((Token.Cursor.ofString string source).tokens false).1 =
      text.tokens.map .ok ++ [.ok text.ending] := by
  obtain ⟨tokens, last, all, inner, isEnd⟩ :=
    Token.exists_readings (Nat.lt_succ_self (Token.Cursor.ofString string source).rest.length)
  have made : Stream.ofReadings (tokens.map .ok ++ [last]) = .ok text.stream := by
    rw [← all]
    exact made
  -- a sentence has an end token, so that the last reading is no error
  cases last with
  | ok ending =>
    rw [ofReadings_eq] at made
    obtain ⟨rfl, rfl⟩ := eq_of_streamOf_eq inner text.inner (isEnd ending rfl) text.isEnd
      (Except.ok.inj made)
    exact all
  | error e =>
    have ends : text.stream.ending = .ok text.ending := by
      unfold Sentence.stream
      cases text.tokens <;> rfl
    cases tokens with
    | nil => cases made
    | cons first tokens =>
      rw [← Except.ok.inj made] at ends
      simp at ends

/-- Tokens that can be written one behind the other are the tokens of their text. -/
theorem exists_sentence_of_adjoin {tokens : List Token} (adjoin : Token.Adjoin tokens)
    {string : String} (isText : string.toList = Token.texts tokens) :
    ∃ text : Sentence, Stream.ofString string = .ok text.stream ∧
      text.tokens.map Token.bare = tokens.map Token.bare := by
  let here := Token.Cursor.ofString string
  have isRest : here.rest = Token.texts tokens := isText
  obtain ⟨read, ending, all, same, isEnd⟩ :=
    adjoin.readAll rfl isRest (Nat.lt_succ_self here.rest.length) false
  have inner : ∀ t ∈ read, t.kind ≠ .eof :=
    forall_kind_of_bare_eq (· ≠ .eof) same fun t among => (adjoin.legible t among).inner
  refine ⟨⟨read, ending, inner, isEnd⟩, ?_, same⟩
  rw [Stream.ofString, Stream.ofCursor, Token.Cursor.tokens, all, ofReadings_eq]
  rfl

/-- A text is a sentence, or an error ends its stream. -/
theorem sentence_or_broken {text : String} {source : Nat} {s : Stream}
    (made : Stream.ofString text source = .ok s) :
    (∃ sentence : Sentence, sentence.stream = s) ∨ s.Broken := by
  cases ends : s.ending with
  | ok ending => exact .inl (Sentence.exists_stream made ends)
  | error e =>
    right
    obtain ⟨tokens, last, all, inner, -⟩ :=
      Token.exists_readings (Nat.lt_succ_self (Token.Cursor.ofString text source).rest.length)
    have made : Stream.ofReadings (tokens.map .ok ++ [last]) = .ok s := by
      rw [← all]
      exact made
    cases tokens with
    | nil =>
      cases last with
      | error e => cases made
      | ok ending =>
        cases made
        cases ends
    | cons first tokens =>
      cases made
      refine ⟨fun t among => inner t ?_, e, ends⟩
      simpa [Stream.toList, Except.toOption, List.filterMap_map, Function.comp_def] using among

end Syntax

namespace Path

open Syntax Syntax.Parser
open Token (Stream)

variable {text : Sentence} {tree : Node}

/-- What is read as a path is a primary that starts with a word, and nothing follows it. -/
theorem derives_of_read {p : Node} {left : Stream}
    (read : parser.run text.stream = (.ok (some p), left)) :
    headKind text.tokens = .word ∧ Derives (.expression .primary p.bare) text.tokens := by
  have yields : Yields text.stream parser fun found _ => ∀ p, found = some p →
      headKind text.tokens = .word ∧ Derives (.expression .primary p.bare) text.tokens := by
    simp only [parser, withNesting, atEnd, yields_bind, yields_kind, yields_ite, yields_pure,
      yields_get]
    refine ⟨fun _ p none => (by cases none), fun isWord => ?_⟩
    have starts : headKind text.tokens = .word := by
      rw [← next_streamOf text.isEnd]
      exact not_not.mp isWord
    refine (takes_primary (expresses_nest _)).yields text.behind_stream ?_
    intro found more left derived behind
    obtain ⟨rest, isText, isLeft⟩ := behind
    refine ⟨fun isEof p same => ?_, fun _ p none => ?_⟩
    · -- no end token is among the tokens, so that none is left
      have all : rest = [] := by
        cases rest with
        | nil => rfl
        | cons t rest =>
          subst isLeft
          exact absurd (of_decide_eq_true isEof) (text.inner t (by simp [isText]))
      cases same
      refine ⟨starts, ?_⟩
      rw [isText, all]
      simpa using derived
    · cases none
  exact yields (some p) left read p rfl

/-- A text that an error ends is no path. -/
theorem not_broken_of_read {s left : Stream} {p : Node}
    (read : parser.run s = (.ok (some p), left)) : ¬s.Broken := by
  intro broken
  have yields : Yields s parser fun found _ => found = none := by
    simp only [parser, withNesting, atEnd, yields_bind, yields_kind, yields_ite, yields_pure,
      yields_get]
    refine ⟨fun _ => trivial, fun _ => ?_⟩
    -- the primary leaves a stream that an error ends, so that no end token comes next
    refine (keeps_primary (keeps_nest _) s broken).mono fun found left after =>
      ⟨fun isEof => ?_, fun _ => trivial⟩
    exact absurd (of_decide_eq_true isEof) (after.inner left.next (by simp [Stream.toList]))
  cases yields (some p) left read

/-- A primary that starts with a word is read as a path, up to the end of the text. -/
theorem reads_path (derived : Derives (.expression .primary tree) text.tokens)
    (starts : headKind text.tokens = .word) :
    Reads text.ending parser text.tokens [] fun found => ∃ p, found = some p ∧ p.bare = tree := by
  have ends : continues (headKind ([] : List Token)) < Level.primary.rank := by decide
  -- an expression is nested no deeper than it has tokens
  have enough : text.tokens.length ≤ text.stream.rest.length + 2 := by
    unfold Sentence.stream
    cases text.tokens with
    | nil => exact Nat.zero_le _
    | cons _ rest => exact Nat.le_succ (rest.length + 1)
  have parses := Parser.completes text.isEnd derived _ enough []
    (ends.trans_le Level.primary.rank_le_reach)
  have primary : Reads text.ending (withNesting primary) text.tokens [] (·.bare = tree) := by
    obtain ⟨p, ran, same⟩ := parses.reads text.isEnd ends (by decide)
    refine ⟨p, ?_, same⟩
    rw [List.append_nil] at ran ⊢
    rw [withNesting, run_bind, run_get]
    exact ran
  refine reads_kind text.isEnd ?_
  rw [List.append_nil, starts]
  refine primary.andThen fun p same => ?_
  have atEnd : Reads text.ending Parser.atEnd [] [] (· = true) :=
    reads_kind text.isEnd (reads_pure rfl)
  refine atEnd.andThen fun found isTrue => ?_
  rw [isTrue]
  exact reads_pure ⟨p, rfl, same⟩

/-- A text is read as a path exactly if its tokens make up a primary that starts with a word, and
the path is the tree of it. -/
theorem ofString_iff (string : String) :
    (∃ p, ofString string = .ok p ∧ p.bare = tree) ↔
      ∃ text : Sentence, Stream.ofString string = .ok text.stream ∧
        headKind text.tokens = .word ∧ Derives (.expression .primary tree) text.tokens := by
  constructor
  · rintro ⟨p, read, rfl⟩
    unfold ofString at read
    cases made : Stream.ofString string with
    | error e =>
      rw [made] at read
      cases read
    | ok s =>
      rw [made] at read
      dsimp only at read
      split at read
      case h_1 => cases read
      case h_2 => cases read
      case h_3 path isPath =>
        cases read
        have ran : parser.run s = (.ok (some p), (parser.run s).2) := Prod.ext isPath rfl
        obtain ⟨text, rfl⟩ := (sentence_or_broken made).resolve_right (not_broken_of_read ran)
        exact ⟨text, rfl, derives_of_read ran⟩
  · rintro ⟨text, made, starts, derived⟩
    obtain ⟨found, ran, p, rfl, same⟩ := reads_path derived starts
    refine ⟨p, ?_, same⟩
    unfold ofString
    rw [List.append_nil] at ran
    rw [made]
    dsimp only [Sentence.stream]
    rw [ran]

end Path

end LazyConfig
