import LazyConfig.Proofs.Document.Default
import LazyConfig.Proofs.Text.CharClass
import LazyConfig.Proofs.Token.Legible

/-!
# Identifiers and words

A key that a document does not have is missing if it is an identifier, and a path otherwise. An
identifier that starts with a letter or an underscore is what is read as one word. An identifier can
also start with a numeral that is no decimal digit, and then no word starts there: as a path it is
refused, but a lookup takes it for the name of a missing entry.
-/

namespace LazyConfig

namespace Token

open Text (isWordChar isWordStart isBlank isDigit isDecimal)

variable {text rest : List Char} {c : Char} {found : Lexeme}

/-! ### Words -/

/-- The text is read as one word, which may have a meaning of its own, and nothing else. The marks
for `and`, `or` and `not` are no words, even though they are of the same kinds. -/
def IsReadAsWord (text : String) : Prop :=
  ∃ token ending, ((Cursor.ofString text).tokens false).1 = [.ok token, .ok ending] ∧
    (token.kind = .word ∨ token.text ∈ keywords.map (·.1)) ∧ token.text = text ∧
    ending.kind = .eof

theorem plain_of_isWordChar (word : isWordChar c) : IsPlain c := by
  constructor <;> rintro rfl <;> revert word <;> decide +kernel

/-- Words have no marks in them, and no quotes. -/
theorem unmarked_of_isWordChar (word : isWordChar c) :
    mark? c = none ∧ c ≠ '`' ∧ ¬(c = '\'' ∨ c = '"') := by
  refine ⟨?_, ?_, ?_⟩
  · cases isMark : mark? c with
    | none => rfl
    | some kind =>
      have noWord : isWordChar c = false := by
        unfold mark? at isMark
        split at isMark <;> first | decide +kernel | cases isMark
      rw [noWord] at word
      cases word
  · rintro rfl
    revert word
    decide +kernel
  · rintro (rfl | rfl) <;> revert word <;> decide +kernel

/-- A word that takes all that is left is the last token. -/
theorem tokens_of_word (start : isWordStart c) (word : rest.all isWordChar) {here : Cursor}
    (whole : here.fault = none) (isRest : here.rest = c :: rest) :
    ∃ token ending, (here.tokens false).1 = [.ok token, .ok ending] ∧
      token.kind = (Token.word (c :: rest)).kind ∧ token.text = String.ofList (c :: rest) ∧
      ending.kind = .eof := by
  have isWord := Text.isWordChar_of_isWordStart start
  have all : rest.takeWhile isWordChar = rest :=
    List.takeWhile_eq_self_iff.mpr (List.all_eq_true.mp word)
  have isFound : lexeme c rest = .ok (Token.word (c :: rest)) := by
    rw [lexeme, if_pos start, all]
  obtain ⟨token, isNext, made⟩ := next_of_lexeme whole isRest (plain_of_isWordChar isWord)
    (by simp [Text.not_isBlank_of_isWordChar isWord]) isFound
  have length := word_length (c :: rest)
  have inner : token.kind ≠ .eof := by
    rw [made.kind]
    exact (ne_of_mem_of_not_mem List.mem_cons_self (word_kind _)).symm
  -- nothing is left behind the word
  have isEmpty : (here.skip (Token.word (c :: rest)).length).rest = [] := by
    rw [Cursor.skip, length, isRest, List.drop_length]
  obtain ⟨ending, isEnd, atEnd⟩ : ∃ ending : Token, ending.kind = .eof ∧
      next (here.skip (Token.word (c :: rest)).length) = (.ok ending, _) :=
    ⟨_, rfl, next_of_end (by exact whole) isEmpty⟩
  refine ⟨token, ending, ?_, made.kind, ?_, isEnd⟩
  · rw [Cursor.tokens, isRest, List.length_cons, readAll_of_token isNext inner,
      readAll_of_end atEnd isEnd]
  · rw [made.text, length, List.take_length]

/-- A word of the language is spelt like any other word. -/
theorem word_of_keyword {text : String} (keyword : text ∈ keywords.map (·.1)) :
    ∃ c rest, text.toList = c :: rest ∧ isWordStart c ∧ ∀ d ∈ rest, isWordChar d := by
  have all : (keywords.map (·.1)).all fun word =>
      word.toList.head?.any isWordStart && word.toList.tail.all isWordChar := by
    decide +kernel
  obtain ⟨first, others⟩ := Bool.and_eq_true_iff.mp (List.all_eq_true.mp all text keyword)
  obtain ⟨c, isFirst, start⟩ := (Option.any_eq_true _ _).mp first
  exact ⟨c, text.toList.tail, List.eq_cons_of_mem_head? isFirst, start, List.all_eq_true.mp others⟩

/-- What is read as one word starts with a letter or an underscore and goes on with the characters
of words, and nothing else is. -/
theorem isReadAsWord_iff {text : String} :
    IsReadAsWord text ↔
      ∃ c rest, text.toList = c :: rest ∧ isWordStart c ∧ ∀ d ∈ rest, isWordChar d := by
  constructor
  · rintro ⟨token, ending, isRead, isWord | keyword, rfl, -⟩
    · have among : .ok token ∈ ((Cursor.ofString token.text).tokens false).1 := by
        rw [isRead]
        exact List.mem_cons_self
      have legible : token.Legible :=
        legible_of_readAll among (by simp [isWord]) (by simp [isWord])
      obtain ⟨c, rest, isText, start, others, -⟩ := legible.exists_word isWord
      exact ⟨c, rest, isText, start, others⟩
    · exact word_of_keyword keyword
  · rintro ⟨c, rest, isText, start, others⟩
    have isRest : (Cursor.ofString text).rest = c :: rest := isText
    obtain ⟨token, ending, isRead, isKind, sameText, isEnd⟩ :=
      tokens_of_word start (List.all_eq_true.mpr others) (by rfl) isRest
    have whole : token.text = text := by rw [sameText, ← isText, String.ofList_toList]
    refine ⟨token, ending, isRead, ?_, whole, isEnd⟩
    rw [isKind, whole]
    unfold Token.word
    dsimp only
    split
    case h_1 kind value isKeyword =>
      right
      obtain ⟨before, behind, isTable, -⟩ := List.lookup_eq_some_iff.mp isKeyword
      rw [isTable, ← isText, String.ofList_toList]
      simp
    case h_2 => exact .inl rfl

/-- Where a character of words stands that starts none, nothing can be read. -/
theorem lexeme_of_numeral (word : isWordChar c) (noStart : ¬isWordStart c)
    (noDecimal : isDecimal c = false) (rest : List Char) :
    lexeme c rest = .error ⟨.character c, 0, 1, false⟩ := by
  obtain ⟨noMark, noBacktick, noQuote⟩ := unmarked_of_isWordChar word
  have noDigit : ¬isDigit c := by
    intro digit
    rw [Text.isDecimal_of_isDigit digit] at noDecimal
    cases noDecimal
  rw [lexeme, if_neg noStart, if_neg noBacktick, if_neg noQuote, if_neg noDigit, noMark]

end Token

namespace Path

open Text (isWordChar isWordStart isDecimal)
open Token (IsReadAsWord)

theorem isIdentifier_iff {text : String} :
    isIdentifier text ↔ ∃ c rest, text.toList = c :: rest ∧ isWordChar c ∧
      isDecimal c = false ∧ ∀ d ∈ rest, isWordChar d := by
  unfold isIdentifier
  cases text.toList with
  | nil => simp
  | cons c rest =>
    simp only [Bool.and_eq_true, Bool.not_eq_true', List.all_eq_true, List.cons.injEq]
    constructor
    · rintro ⟨⟨word, noDecimal⟩, others⟩
      exact ⟨c, rest, ⟨rfl, rfl⟩, word, noDecimal, others⟩
    · rintro ⟨_, _, ⟨rfl, rfl⟩, word, noDecimal, others⟩
      exact ⟨⟨word, noDecimal⟩, others⟩

/-- An identifier is read as one word exactly if a word starts with its first character. -/
theorem isReadAsWord_iff_isIdentifier {text : String} :
    IsReadAsWord text ↔ isIdentifier text ∧ ∀ c ∈ text.toList.head?, isWordStart c := by
  rw [Token.isReadAsWord_iff, isIdentifier_iff]
  constructor
  · rintro ⟨c, rest, isText, start, others⟩
    refine ⟨⟨c, rest, isText, Text.isWordChar_of_isWordStart start,
      Text.not_isDecimal_of_isWordStart start, others⟩, ?_⟩
    simpa [isText] using start
  · rintro ⟨⟨c, rest, isText, -, -, others⟩, start⟩
    exact ⟨c, rest, isText, start c (by simp [isText]), others⟩

/-- An identifier that no word starts is no path: it is refused at its first character. -/
theorem ofString_of_numeral {text : String} (isName : isIdentifier text) {c : Char}
    (first : c ∈ text.toList.head?) (noStart : ¬isWordStart c) :
    ofString text = .error ⟨text, some (.token ⟨.character c, {}⟩)⟩ := by
  obtain ⟨d, rest, isText, word, noDecimal, -⟩ := isIdentifier_iff.mp isName
  obtain rfl : c = d := by simpa [isText, eq_comm] using first
  have isRest : (Token.Cursor.ofString text).rest = c :: rest := isText
  have isNext := Token.next_of_solid (by rfl) isRest (Token.plain_of_isWordChar word)
    (by simp [Text.not_isBlank_of_isWordChar word])
  simp only [Token.solid, Token.lexeme_of_numeral word noStart noDecimal] at isNext
  have isRead : Token.Stream.ofString text = .error ⟨.character c, {}⟩ := by
    have all : ((Token.Cursor.ofString text).tokens false).1 = [.error ⟨.character c, {}⟩] := by
      rw [Token.Cursor.tokens, Token.readAll, isNext]
      rfl
    rw [Token.Stream.ofString, Token.Stream.ofCursor, all]
    rfl
  rw [ofString, isRead]

end Path

namespace Document

open Eval
open Evaluation
open Resolution (emptyWorld exists_of_any)
open Text (isWordStart)
open Token (IsReadAsWord)

variable {environment : Environment} {s : Store} {id : DocumentId} {key : String}

/-! ### Lookups of identifiers -/

/-- A document that is loaded and has nothing under a key. -/
structure Lacks (environment : Environment) (s : Store) (id : DocumentId) (key : String) : Prop where
  answers : environment.depth ≠ 0
  isLoaded : (s.document id).root.isSome
  notKept : (s.document id).cache.bind (·.lookup key) = none
  noEntry : ((contains id key).run environment s).1 = .ok false

/-- An identifier is missing if there is no such entry, whether a word starts with its first
character or not. -/
theorem run_get_identifier (lacks : Lacks environment s id key) (isName : Path.isIdentifier key)
    (default? : Option Value) :
    (get id key default?).run environment s =
      match default? with
      | none => (.error (.error ⟨.notFound key, none⟩), s)
      | some default => (.ok default, s) := by
  obtain ⟨root, isRoot⟩ := Option.isSome_iff_exists.mp lacks.isLoaded
  obtain ⟨depth, isDepth⟩ := Nat.exists_eq_succ_of_ne_zero lacks.answers
  have noEntry : ((hasKey root key).run environment s).1 = .ok false := by
    have noEntry := lacks.noEntry
    rw [contains, run_bind, run_document] at noEntry
    dsimp only at noEntry
    rwa [isRoot] at noEntry
  have leads (m : Machine) : (found m id root key default?).run environment s =
      (withDefault default? (fail (.notFound key))).run environment s := by
    rw [found, run_bind, run_entryValue?_none noEntry]
    dsimp only
    rw [isName]
    rfl
  rw [Resolution.run_documentGet, isDepth]
  change (lookupValue _ id key default?).run environment s = _
  rw [lookupValue, run_bind, run_document]
  dsimp only
  rw [lacks.notKept]
  dsimp only
  rw [run_bind, run_document]
  dsimp only
  rw [isRoot]
  dsimp only
  rw [run_bind, leads]
  cases default? with
  | none => rfl
  | some default => rfl

/-- Identifiers and words agree where a letter or an underscore comes first. Another numeral can be
the first character of an identifier as well. A lookup then takes the key for the name of a missing
entry, while it can be read neither as a word nor as a path. -/
theorem identifier_read (text : String) :
    (IsReadAsWord text ↔
      Path.isIdentifier text ∧ ∀ c ∈ text.toList.head?, isWordStart c) ∧
    ∀ c ∈ text.toList.head?, Path.isIdentifier text → ¬isWordStart c →
      Path.ofString text = .error ⟨text, some (.token ⟨.character c, {}⟩)⟩ ∧
      ∀ environment s id, Lacks environment s id text →
        (get id text).run environment s = (.error (.error ⟨.notFound text, none⟩), s) ∧
        ∀ default, (get id text (some default)).run environment s = (.ok default, s) :=
  ⟨Path.isReadAsWord_iff_isIdentifier, fun _ first isName noStart =>
    ⟨Path.ofString_of_numeral isName first noStart, fun _ _ _ lacks =>
      ⟨run_get_identifier lacks isName none, fun default =>
        run_get_identifier lacks isName (some default)⟩⟩⟩

theorem identifier_read_superscript :
    IsReadAsWord "a²" ∧ Path.isIdentifier "²" ∧ ¬IsReadAsWord "²" ∧
      Path.ofString "²" = .error ⟨"²", some (.token ⟨.character '²', {}⟩)⟩ ∧
      (get 0 "²").run emptyWorld clashStore = (.error (.error ⟨.notFound "²", none⟩), clashStore) := by
  have isName : Path.isIdentifier "²" := by decide +kernel
  have noStart : ¬isWordStart '²' := by decide +kernel
  have lacks : Lacks emptyWorld clashStore 0 "²" := by
    obtain ⟨isKey, noEntry, no⟩ := exists_of_any
      ((contains 0 "²").run emptyWorld clashStore).1 (! ·) (by decide +kernel)
    obtain rfl : isKey = false := by simpa using no
    exact ⟨by decide, by decide +kernel, by decide +kernel, noEntry⟩
  obtain ⟨refused, missing⟩ := (identifier_read "²").2 '²' rfl isName noStart
  have isLetter : ∀ c ∈ "a²".toList.head?, isWordStart c := by
    intro c first
    obtain rfl : 'a' = c := Option.some.inj first
    decide +kernel
  refine ⟨(identifier_read "a²").1.mpr ⟨by decide +kernel, isLetter⟩, isName, ?_, refused,
    (missing _ _ _ lacks).1⟩
  intro isWord
  exact noStart (((identifier_read "²").1.mp isWord).2 '²' rfl)

/-- The superscript two is an identifier, but no word and no path. -/
theorem numeral_is_no_word : Path.isIdentifier "²" ∧ ¬IsReadAsWord "²" ∧
    ∀ path, Path.ofString "²" ≠ .ok path := by
  have isName : Path.isIdentifier "²" := by decide +kernel
  have noStart : ¬isWordStart '²' := by decide +kernel
  refine ⟨isName, fun isWord => ?_, fun path isPath => ?_⟩
  · exact noStart ((Path.isReadAsWord_iff_isIdentifier.mp isWord).2 '²' rfl)
  · rw [Path.ofString_of_numeral isName rfl noStart] at isPath
    cases isPath

end Document

end LazyConfig
