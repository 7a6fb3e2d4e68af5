import LazyConfig.Proofs.Token.Adjacent
import LazyConfig.Proofs.Syntax.Grammar
import Mathlib.Data.List.Chain

/-!
# Tokens one behind the other

A token is legible if it is read from its own text. All tokens of a text are, line ends apart. Texts
of legible tokens can stand one behind the other, without blanks between them, if each of the tokens
ends in front of the next one: they are read as the same tokens again.
-/

namespace LazyConfig

namespace Token

open Text (isWordChar isWordStart isBlank isDigit)

variable {text rest more : List Char} {c : Char} {found : Lexeme}

/-! ### Texts of tokens -/

/-- The token is made of the characters that a lexeme takes at the head of a text. -/
structure Made (found : Lexeme) (head : List Char) (t : Token) : Prop where
  kind : t.kind = found.kind
  text : t.text = String.ofList (head.take found.length)
  value : t.value = found.value

/-- A token that its own text is read as, but for the location. -/
structure Legible (t : Token) : Prop where
  inner : t.kind ≠ .eof
  inLine : t.kind ≠ .newline
  read : (next (Cursor.ofString t.text)).1.map Token.bare = .ok t.bare

instance : DecidablePred Legible := fun t =>
  decidable_of_iff (t.kind ≠ .eof ∧ t.kind ≠ .newline ∧
      (next (Cursor.ofString t.text)).1.map Token.bare = .ok t.bare)
    ⟨fun ⟨inner, inLine, read⟩ => ⟨inner, inLine, read⟩,
      fun ⟨inner, inLine, read⟩ => ⟨inner, inLine, read⟩⟩

example : Legible { kind := .integer, text := "0x1F", value := .int 31 } := by decide +kernel

/-- A token that is neither the end of the text nor of a line starts with its first character. -/
theorem exists_lexeme {cursor : Cursor} {location : Location} {t : Token}
    (read : (nextFrom cursor location text).result = .ok t) (inner : t.kind ≠ .eof)
    (inLine : t.kind ≠ .newline) :
    ∃ skipped c rest found, text = skipped ++ c :: rest ∧ IsPlain c ∧ ¬isBlank c = true ∧
      lexeme c rest = .ok found ∧ Made found (c :: rest) t := by
  -- every case but the last skips something, or gives the end of the text or of a line
  fun_induction nextFrom cursor location text with
  | case1 location =>
    cases read
    exact absurd rfl inner
  | case2 | case3 | case4 | case5 =>
    cases read
    exact absurd rfl inLine
  | case6 location tail _ _ _ ih =>
    obtain ⟨skipped, c, rest, found, rfl, solid⟩ := ih read
    exact ⟨'\\' :: '\n' :: skipped, c, rest, found, rfl, solid⟩
  | case7 location tail _ _ _ ih =>
    obtain ⟨skipped, c, rest, found, rfl, solid⟩ := ih read
    exact ⟨'\\' :: '\r' :: '\n' :: skipped, c, rest, found, rfl, solid⟩
  | case8 | case9 => cases read
  | case10 location c tail _ _ _ _ blank ih =>
    obtain ⟨skipped, first, rest, found, rfl, solid⟩ := ih read
    exact ⟨c :: skipped, first, rest, found, rfl, solid⟩
  | case11 location c tail here noComment noFeed noReturn noBackslash notBlank =>
    unfold solid at read
    cases isFound : lexeme c tail with
    | error misread => simp [isFound] at read
    | ok found =>
      simp only [isFound, Except.ok.injEq] at read
      subst read
      exact ⟨[], c, tail, found, rfl, ⟨noComment, noFeed, noReturn, noBackslash⟩, notBlank,
        isFound, rfl, rfl, rfl⟩

theorem exists_lexeme_of_next {here behind : Cursor} {t : Token}
    (read : next here = (.ok t, behind)) (inner : t.kind ≠ .eof) (inLine : t.kind ≠ .newline) :
    ∃ skipped c rest found, here.rest = skipped ++ c :: rest ∧ IsPlain c ∧ ¬isBlank c = true ∧
      lexeme c rest = .ok found ∧ Made found (c :: rest) t := by
  refine @exists_lexeme _ here here.location t ?_ inner inLine
  unfold next at read
  dsimp only at read
  split at read
  · cases read
  · exact congrArg Prod.fst read

/-- What is read where nothing has to be skipped. -/
theorem next_of_solid {here : Cursor} (whole : here.fault = none) (isRest : here.rest = c :: rest)
    (plain : IsPlain c) (notBlank : ¬isBlank c = true) :
    next here = ((solid here c rest).result, (solid here c rest).behind) := by
  have here_eq : { here with rest := c :: rest, location := here.location } = here := by
    rw [← isRest]
  rw [next_of_fault_eq_none whole, isRest, nextFrom_solid _ _ plain notBlank, here_eq]

/-- What is read where nothing is left. -/
theorem next_of_end {here : Cursor} (whole : here.fault = none) (isEmpty : here.rest = []) :
    next here = (.ok ⟨.eof, "", .absent, here.spanOf 0⟩, here) := by
  obtain ⟨rest, location, source, fault⟩ := here
  subst isEmpty
  rw [next_of_fault_eq_none whole]
  rfl

theorem next_of_lexeme {here : Cursor} (whole : here.fault = none) (isRest : here.rest = c :: rest)
    (plain : IsPlain c) (notBlank : ¬isBlank c = true) (isFound : lexeme c rest = .ok found) :
    ∃ t, next here = (.ok t, here.skip found.length) ∧ Made found (c :: rest) t := by
  rw [next_of_solid whole isRest plain notBlank]
  simp only [solid, isFound]
  refine ⟨_, rfl, ?_⟩
  exact ⟨rfl, rfl, rfl⟩

/-- A legible token takes the whole of its text. -/
theorem Legible.exists_lexeme {t : Token} (legible : t.Legible) :
    ∃ c rest found, t.text.toList = c :: rest ∧ IsPlain c ∧ ¬isBlank c = true ∧
      lexeme c rest = .ok found ∧ found.length = rest.length + 1 ∧ found.kind = t.kind ∧
      found.value = t.value := by
  have read := legible.read
  cases isNext : Token.next (Cursor.ofString t.text) with
  | mk result behind =>
  cases result with
  | error e =>
    rw [isNext] at read
    cases read
  | ok u =>
    rw [isNext] at read
    obtain ⟨sameKind, sameText, sameValue⟩ := bare_eq_iff.mp (Except.ok.inj read)
    obtain ⟨skipped, c, rest, found, isText, plain, notBlank, isFound, made⟩ :=
      exists_lexeme_of_next isNext (sameKind ▸ legible.inner) (sameKind ▸ legible.inLine)
    have isText : t.text.toList = skipped ++ c :: rest := isText
    have taken : t.text.toList = (c :: rest).take found.length := by
      rw [← sameText, made.text, String.toList_ofList]
    -- nothing can have been skipped, because the token is as long as the text
    have lengths := congrArg List.length (isText.symm.trans taken)
    simp only [List.length_append, List.length_take, List.length_cons] at lengths
    have fits := (lexeme_within isFound).fits
    have none : skipped = [] := List.length_eq_zero_iff.mp (by omega)
    subst none
    exact ⟨c, rest, found, isText, plain, notBlank, isFound, by omega,
      made.kind.symm.trans sameKind, made.value.symm.trans sameValue⟩

/-- A token is read in front of what does not go on with it. -/
theorem Legible.next {t : Token} (legible : t.Legible) {here : Cursor} (whole : here.fault = none)
    (isRest : here.rest = t.text.toList ++ more)
    (ends : ∀ d ∈ more.head?, endsBefore t.text.toList d) :
    ∃ u, Token.next here = (.ok u, here.skip t.text.toList.length) ∧ u.bare = t.bare := by
  obtain ⟨c, rest, found, isText, plain, notBlank, isFound, length, sameKind, sameValue⟩ :=
    legible.exists_lexeme
  obtain ⟨taken, behind, rfl, fits, again⟩ := lexeme_append isFound
  have none : behind = [] := by
    rw [length, List.length_append] at fits
    exact List.length_eq_zero_iff.mp (by omega)
  subst none
  rw [List.append_nil] at isText
  rw [isText] at isRest ends ⊢
  rw [List.cons_append] at isRest
  obtain ⟨u, isNext, made⟩ := next_of_lexeme whole isRest plain notBlank (again more ends)
  refine ⟨u, ?_, bare_eq_iff.mpr ⟨made.kind.trans sameKind, ?_, made.value.trans sameValue⟩⟩
  · rw [isNext, fits, List.length_cons]
  · rw [made.text, ← List.cons_append, List.take_left' (by simp [fits]), ← isText,
      String.ofList_toList]

/-- Whatever is read is legible, line ends and the end of the text apart. -/
theorem legible_of_next {here behind : Cursor} {t : Token} (read : next here = (.ok t, behind))
    (inner : t.kind ≠ .eof) (inLine : t.kind ≠ .newline) : t.Legible := by
  obtain ⟨_, c, rest, found, -, plain, notBlank, isFound, made⟩ :=
    exists_lexeme_of_next read inner inLine
  obtain ⟨taken, behind, rfl, length, again⟩ := lexeme_append isFound
  -- the text of the token is what has been taken, and it is taken again when nothing follows
  have isText : t.text = String.ofList (c :: taken) := by
    rw [made.text, length, ← List.cons_append, List.take_left' (by simp)]
  have alone := again [] (by simp)
  rw [List.append_nil] at alone
  have isRest : (Cursor.ofString t.text).rest = c :: taken := by
    rw [isText]
    exact String.toList_ofList
  obtain ⟨u, isNext, same⟩ := next_of_lexeme rfl isRest plain notBlank alone
  refine ⟨inner, inLine, ?_⟩
  rw [isNext]
  refine congrArg Except.ok (bare_eq_iff.mpr ⟨same.kind.trans made.kind.symm, ?_,
    same.value.trans made.value.symm⟩)
  rw [same.text, isText, List.take_of_length_le (by simp [length])]

theorem legible_of_readAll {resume : Bool} {bound : Nat} {here : Cursor} {t : Token}
    (among : .ok t ∈ (readAll resume bound here).1) (inner : t.kind ≠ .eof)
    (inLine : t.kind ≠ .newline) : t.Legible := by
  induction bound generalizing here with
  | zero => cases among
  | succ bound ih =>
    unfold readAll at among
    rcases isNext : next here with ⟨e | u, behind⟩
    · simp only [isNext] at among
      split at among
      · rcases List.mem_cons.mp among with same | among
        · cases same
        · exact ih among
      · simp at among
    · simp only [isNext] at among
      split at among
      · obtain rfl : t = u := by simpa using among
        exact legible_of_next isNext inner inLine
      · rcases List.mem_cons.mp among with same | among
        · cases same
          exact legible_of_next isNext inner inLine
        · exact ih among

/-! ### Words -/

/-- A word is a character that starts words and others that go on with them. -/
theorem Legible.exists_word {t : Token} (legible : t.Legible) (isWord : t.kind = .word) :
    ∃ c rest, t.text.toList = c :: rest ∧ isWordStart c ∧ (∀ d ∈ rest, isWordChar d) ∧
      t.kind = (word (c :: rest)).kind ∧ t.value = (word (c :: rest)).value := by
  obtain ⟨c, rest, found, isText, -, -, isFound, length, sameKind, sameValue⟩ :=
    legible.exists_lexeme
  have start := (starts_of_lexeme isFound).1 (sameKind.trans isWord)
  unfold lexeme at isFound
  rw [if_pos start] at isFound
  cases isFound
  -- the word takes all of the text
  have within : (rest.takeWhile isWordChar).Sublist rest := List.takeWhile_sublist _
  rw [word_length, List.length_cons] at length
  have whole := within.eq_of_length (Nat.succ_injective length)
  rw [whole] at sameKind sameValue
  exact ⟨c, rest, isText, start, List.takeWhile_eq_self_iff.mp whole, sameKind.symm,
    sameValue.symm⟩

/-- The value of a word is its text. -/
theorem Legible.value_of_word {t : Token} (legible : t.Legible) (isWord : t.kind = .word) :
    t.value = .text t.text := by
  obtain ⟨c, rest, isText, -, -, sameKind, sameValue⟩ := legible.exists_word isWord
  rcases word_cases (c :: rest) with ⟨-, isValue⟩ | ⟨entry, among, isKind⟩
  · rw [sameValue, isValue, ← isText, String.ofList_toList]
  · have others : ∀ entry ∈ keywords, entry.2.1 ≠ .word := by decide
    exact absurd (isKind.symm.trans (sameKind.symm.trans isWord)) (others entry among)

/-- The first character of a word. -/
theorem Legible.starts_of_word {t : Token} (legible : t.Legible) (isWord : t.kind = .word) :
    ∃ c rest, t.text.toList = c :: rest ∧ isWordStart c := by
  obtain ⟨c, rest, isText, start, -⟩ := legible.exists_word isWord
  exact ⟨c, rest, isText, start⟩

/-- The first character of a string. -/
theorem Legible.starts_of_string {t : Token} (legible : t.Legible) (isString : t.kind = .string) :
    ∃ c rest, t.text.toList = c :: rest ∧ (c = '\'' ∨ c = '"') := by
  obtain ⟨c, rest, found, isText, -, -, isFound, -, sameKind, -⟩ := legible.exists_lexeme
  exact ⟨c, rest, isText, (starts_of_lexeme isFound).2 (sameKind.trans isString)⟩

/-- The value of a string is a text. -/
theorem Legible.hasText_of_string {t : Token} (legible : t.Legible) (isString : t.kind = .string) :
    t.value.text?.isSome := by
  obtain ⟨c, rest, found, -, -, -, isFound, -, sameKind, sameValue⟩ := legible.exists_lexeme
  have isQuote := (starts_of_lexeme isFound).2 (sameKind.trans isString)
  rw [lexeme_of_quote isQuote] at isFound
  rw [← sameValue]
  exact Quotation.hasText_string isFound

/-! ### Several tokens -/

theorem readAll_of_token {resume : Bool} {here behind : Cursor} {t : Token}
    (isNext : next here = (.ok t, behind)) (inner : t.kind ≠ .eof) (bound : Nat) :
    (readAll resume (bound + 1) here).1 = .ok t :: (readAll resume bound behind).1 := by
  rw [readAll, isNext]
  simp [inner]

theorem readAll_of_end {resume : Bool} {here behind : Cursor} {t : Token}
    (isNext : next here = (.ok t, behind)) (isEnd : t.kind = .eof) (bound : Nat) :
    (readAll resume (bound + 1) here).1 = [.ok t] := by
  rw [readAll, isNext]
  simp [isEnd]

/-- Tokens whose texts can be written one behind the other. -/
structure Adjoin (tokens : List Token) : Prop where
  legible : ∀ t ∈ tokens, t.Legible
  apart : tokens.IsChain fun a b => ∀ d ∈ b.text.toList.head?, endsBefore a.text.toList d

/-- The texts of tokens, one behind the other. -/
def texts (tokens : List Token) : List Char := tokens.flatMap (·.text.toList)

/-- The character that follows a token is the first one of the next token. -/
theorem Adjoin.ends {t : Token} {tokens : List Token} (adjoin : Adjoin (t :: tokens)) :
    ∀ d ∈ (texts tokens).head?, endsBefore t.text.toList d := by
  cases tokens with
  | nil => simp [texts]
  | cons next tokens =>
    obtain ⟨c, rest, -, isText, -⟩ := (adjoin.legible next (by simp)).exists_lexeme
    intro d isNext
    refine (List.isChain_cons_cons.mp adjoin.apart).1 d ?_
    simpa [texts, isText] using isNext

theorem adjoin_nil : Adjoin [] := ⟨by simp, .nil⟩

theorem Adjoin.single {t : Token} (legible : t.Legible) : Adjoin [t] :=
  ⟨by simpa using legible, .singleton t⟩

theorem Adjoin.append {before behind : List Token} (first : Adjoin before) (second : Adjoin behind)
    (ends : ∀ t ∈ before.getLast?, ∀ d ∈ (texts behind).head?, endsBefore t.text.toList d) :
    Adjoin (before ++ behind) := by
  refine ⟨fun t among => (List.mem_append.mp among).elim (first.legible t) (second.legible t), ?_⟩
  refine List.isChain_append.mpr ⟨first.apart, second.apart, fun t isLast next isNext d isFirst => ?_⟩
  refine ends t isLast d ?_
  cases behind with
  | nil => cases isNext
  | cons u behind =>
    cases isNext
    simp only [Option.mem_def] at isFirst
    simp [texts, List.head?_append, isFirst]

/-- A bracket or a colon separates the tokens before it from those behind it. -/
theorem Adjoin.around {before behind : List Token} {mark : Token} {c : Char} (first : Adjoin before)
    (legible : mark.Legible) (isMark : mark.text.toList = [c]) (bracket : isBracket c)
    (second : Adjoin behind) : Adjoin (before ++ mark :: behind) := by
  have front : Adjoin (mark :: behind) := by
    refine (Adjoin.single legible).append second fun t isLast d _ => ?_
    obtain rfl : mark = t := by simpa using isLast
    rw [isMark]
    exact endsBefore_bracket bracket d
  refine first.append front fun t isLast d isFirst => ?_
  obtain rfl : d = c := by simpa [texts, isMark, eq_comm] using isFirst
  obtain ⟨first, rest, -, isText, -⟩ :=
    (first.legible t (List.mem_of_getLast? isLast)).exists_lexeme
  rw [isText]
  exact endsBefore_of_isBracket bracket first rest

/-- Tokens are read again from their texts. -/
theorem Adjoin.readAll {tokens : List Token} (adjoin : Adjoin tokens) {here : Cursor}
    (whole : here.fault = none) (isRest : here.rest = texts tokens) {bound : Nat}
    (enough : here.rest.length < bound) (resume : Bool) :
    ∃ (read : List Token) (ending : Token),
      (Token.readAll resume bound here).1 = read.map .ok ++ [.ok ending] ∧
        read.map Token.bare = tokens.map Token.bare ∧ ending.kind = .eof := by
  -- each token takes its own text, and those behind it are read from the rest
  induction tokens generalizing here bound with
  | nil =>
    obtain ⟨bound, rfl⟩ := Nat.exists_eq_add_one_of_ne_zero (Nat.ne_zero_of_lt enough)
    exact ⟨[], _, readAll_of_end (next_of_end whole isRest) rfl bound, rfl, rfl⟩
  | cons t tokens ih =>
    obtain ⟨bound, rfl⟩ := Nat.exists_eq_add_one_of_ne_zero (Nat.ne_zero_of_lt enough)
    obtain ⟨u, isNext, same⟩ := (adjoin.legible t (by simp)).next whole isRest adjoin.ends
    have others : Adjoin tokens :=
      ⟨fun t among => adjoin.legible t (by simp [among]), adjoin.apart.of_cons⟩
    have isLeft : (here.skip t.text.toList.length).rest = texts tokens := by
      rw [Cursor.skip, isRest]
      exact List.drop_left
    have inner : u.kind ≠ .eof := by
      rw [(bare_eq_iff.mp same).1]
      exact (adjoin.legible t (by simp)).inner
    have fewer := ((next_readFrom isNext).past.resolve_left inner).2
    have wholeLeft : (here.skip t.text.toList.length).fault = none := whole
    obtain ⟨read, ending, all, sameOthers, isEnd⟩ :=
      ih others wholeLeft isLeft (Nat.lt_of_lt_of_le fewer (Nat.le_of_lt_succ enough))
    refine ⟨u :: read, ending, ?_, by rw [List.map_cons, same, sameOthers, List.map_cons], isEnd⟩
    rw [readAll_of_token isNext inner, all, List.map_cons, List.cons_append]

end Token

end LazyConfig
