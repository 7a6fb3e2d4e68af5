import LazyConfig.Proofs.Text.Digit
import LazyConfig.Proofs.Token.LineEnds

/-!
# Where tokens end

What a token takes of a text depends on nothing behind it, if only the next character does not go on
with it. The text of a token alone tells which characters do not.
-/

namespace LazyConfig

namespace Token

open Text (isWordChar isWordStart isBlank isDigit)

variable {text rest more : List Char} {c : Char} {found : Lexeme}

/-! ### Where tokens end -/

/-- Whether every number literal ends in front of the character. -/
def endsNumber (d : Char) : Bool := !isWordChar d && !(['.', '+', '-'].contains d)

/-- Whether a token with the given text ends in front of the character. -/
def endsBefore : List Char → Char → Bool
  | [], _ => false
  | c :: rest, d =>
    if isWordStart c then !isWordChar d
    else if c = '`' then true
    -- a third quote behind two of them would open another literal
    else if c = '\'' ∨ c = '"' then !(rest = [c] && d = c)
    else if isDigit c then endsNumber d
    else match rest with
      | [] => !startsNumber c d && (doubleMark? c d).isNone
      | second :: _ => !startsNumber c second || endsNumber d

/-- The marks that stand around and between the operands of a path end every token. -/
def isBracket (c : Char) : Bool := ['[', ']', ':'].contains c

theorem isWordChar_of_isHexDigit (isHex : Text.isHexDigit c) : isWordChar c := by
  have small := Text.toNat_lt_of_isHexDigit isHex
  have all : ∀ n < 103, !Text.isHexDigit (Char.ofNat n) || isWordChar (Char.ofNat n) := by
    decide +kernel
  have holds := Text.holds_of_toNat_lt (p := fun c => !Text.isHexDigit c || isWordChar c) all small
  simpa [isHex] using holds

theorem isHexDigit_of_isDigit (isDecimal : isDigit c) : Text.isHexDigit c := by
  simp [Text.isHexDigit, Text.hexValue?, isDecimal]

/-- No word starts with a digit. -/
theorem isWordStart_of_isDigit (isDecimal : isDigit c) : isWordStart c = false := by
  have small : c.toNat < 58 := by
    have upTo : c ≤ '9' := (by simpa [isDigit] using isDecimal : _ ∧ _).2
    have order : c.toNat ≤ '9'.toNat := upTo
    exact Nat.lt_succ_of_le order
  have all : ∀ n < 58, !isDigit (Char.ofNat n) || !isWordStart (Char.ofNat n) := by decide +kernel
  have holds := Text.holds_of_toNat_lt (p := fun c => !isDigit c || !isWordStart c) all small
  simpa [isDecimal] using holds

/-! ### Number literals -/

namespace Numeral

theorem isWordChar_of_isDigitIn {radix : Option Nat} (isIn : isDigitIn radix c) :
    isWordChar c := by
  apply isWordChar_of_isHexDigit
  unfold isDigitIn at isIn
  split at isIn
  · exact isHexDigit_of_isDigit isIn
  · exact isIn
  · exact isHexDigit_of_isDigit (Bool.and_eq_true_iff.mp isIn).1

theorem Scan.step_of_endsNumber (s : Scan) {d : Char} (ends : endsNumber d) :
    s.step d = .finish := by
  have ⟨noWord, noMark⟩ := Bool.and_eq_true_iff.mp ends
  have noWord : isWordChar d = false := by simpa using noWord
  -- all that a literal goes on with are characters of words, points and signs
  have apart {other : Char} (isWord : isWordChar other) : d ≠ other := by
    rintro rfl
    rw [isWord] at noWord
    cases noWord
  have noUnderscore : d ≠ '_' := apart (by decide)
  have noDigit : isDigitIn s.radix d = false := by
    by_contra isIn
    rw [isWordChar_of_isDigitIn (by simpa using isIn)] at noWord
    cases noWord
  have noRadix : radix? d = none := by
    unfold radix?
    split <;> first | rfl | exact absurd rfl (apart (by decide +kernel))
  have noExponent : isExponentMark d = false := by
    simp [isExponentMark, @apart 'e' (by decide +kernel), @apart 'E' (by decide +kernel)]
  have goesOn : Scan.allows s d = false := by
    simp only [Bool.not_eq_true', List.contains_eq_mem, decide_eq_false_iff_not, List.mem_cons,
      List.not_mem_nil, or_false, not_or] at noMark
    simp [allows, noMark, noExponent]
  simp [step, noUnderscore, noDigit, noRadix, goesOn]

/-- What follows a literal does not matter, if it does not go on with the literal. -/
theorem Scan.run_append {s longer : Scan} (ran : s.run text = .ok (longer, rest)) :
    (∀ d ∈ rest.head?, longer.step d = .finish) ∧ ∃ taken, text = taken ++ rest ∧
      ∀ more, (∀ d ∈ more.head?, longer.step d = .finish) →
        s.run (taken ++ more) = .ok (longer, more) := by
  -- where the scan stops, it depends on the next character only, and not on the rest
  have stop (s : Scan) (more : List Char) (ends : ∀ d ∈ more.head?, s.step d = .finish) :
      s.run more = .ok (s, more) := by
    cases more with
    | nil => rfl
    | cons d more => rw [run, ends d rfl]
  induction text generalizing s with
  | nil =>
    cases ran
    exact ⟨by simp, [], rfl, stop _⟩
  | cons c text ih =>
    unfold run at ran
    split at ran
    case h_1 next extended =>
      obtain ⟨ends, taken, rfl, again⟩ := ih ran
      refine ⟨ends, c :: taken, rfl, fun more ends => ?_⟩
      rw [List.cons_append, run, extended]
      exact again more ends
    case h_2 finished =>
      cases ran
      exact ⟨by simpa using finished, [], rfl, stop _⟩
    case h_3 => cases ran

/-- The mark that ends a literal belongs to it, and nothing behind the mark matters. -/
theorem Scan.finish_append {s : Scan} (finished : s.finish text = .ok found) :
    ∃ mark rest, text = mark ++ rest ∧ found.length = s.text.length + mark.length ∧
      (mark = [] ∨ mark.head? = text.head?) ∧
      ∀ more, (∀ d ∈ more.head?, endsNumber d) → s.finish (mark ++ more) = .ok found := by
  unfold finish at finished
  split at finished
  case isTrue => cases finished
  case isFalse noUnderscore =>
    -- a literal without a mark is closed by anything that is neither a mark nor a letter
    have alone (closed : s.close [] = .ok found) (more : List Char)
        (ends : ∀ d ∈ more.head?, endsNumber d) : s.finish more = .ok found := by
      cases more with
      | nil => rw [finish.eq_def, if_neg noUnderscore, closed]
      | cons d more =>
        have noWord : isWordChar d = false := by
          simpa using (Bool.and_eq_true_iff.mp (ends d rfl)).1
        have noPoint : d ≠ '.' := by
          rintro rfl
          exact absurd (ends '.' rfl) (by decide +kernel)
        have noMark : d ≠ 'j' ∧ d ≠ 'J' := by
          constructor <;> rintro rfl <;> exact absurd noWord (by decide +kernel)
        have noLetter : Text.isAlphanumeric d = false := by
          simpa using (Bool.or_eq_false_iff.mp noWord).1
        rw [finish.eq_def, if_neg noUnderscore]
        simp [noMark, noPoint, noLetter, closed]
    split at finished
    case h_1 => exact ⟨[], [], rfl, close_length finished, .inl rfl, alone finished⟩
    case h_2 d rest =>
      split at finished
      case isTrue isMark =>
        refine ⟨[d], rest, rfl, close_length finished, .inr rfl, fun more _ => ?_⟩
        rw [finish.eq_def, if_neg noUnderscore]
        exact (if_pos isMark).trans finished
      case isFalse =>
        split at finished
        · cases finished
        · exact ⟨[], d :: rest, rfl, close_length finished, .inl rfl, alone finished⟩

theorem read_append {opening : List Char} (done : read opening text = .ok found) :
    ∃ taken rest, text = taken ++ rest ∧ found.length = opening.length + taken.length ∧
      ∀ more, (∀ d ∈ more.head?, endsNumber d) → read opening (taken ++ more) = .ok found := by
  unfold read at done
  cases ran : Scan.run { text := opening, afterDigit := opening.head?.any isDigit } text with
  | error misread => simp [ran, bind, Except.bind] at done
  | ok result =>
    obtain ⟨longer, behind⟩ := result
    simp only [ran, bind, Except.bind] at done
    obtain ⟨stops, taken, rfl, again⟩ := Scan.run_append ran
    obtain ⟨mark, rest, rfl, length, first, closes⟩ := Scan.finish_append done
    refine ⟨taken ++ mark, rest, (List.append_assoc _ _ _).symm, ?_, fun more ends => ?_⟩
    · have grown := Scan.run_length ran
      simp only [List.length_append] at grown ⊢
      omega
    · -- the literal without its mark stops in front of the mark, or of what follows
      have stopsHere : ∀ d ∈ (mark ++ more).head?, longer.step d = .finish := by
        intro d among
        cases mark with
        | nil => exact longer.step_of_endsNumber (ends d (by simpa using among))
        | cons => exact stops d (by simpa using among)
      unfold read
      simp only [List.append_assoc, again (mark ++ more) stopsHere]
      exact closes more ends

end Numeral

/-! ### Literals between quotes -/

namespace Quotation

/-- Whether a literal opens with a triple of quotes can be told from the part of it that has been
taken, unless this part is a single quote and another one follows. -/
private theorem take_two_append {quote : Char} {taken rest more : List Char} (notEmpty : taken ≠ [])
    (single : taken.length < 2 → ¬(taken ++ rest).take 2 = [quote, quote])
    (apart : taken = [quote] → more.head? ≠ some quote) :
    (taken ++ more).take 2 = [quote, quote] ↔ (taken ++ rest).take 2 = [quote, quote] := by
  match taken with
  | [] => exact absurd rfl notEmpty
  | [last] =>
    refine iff_of_false ?_ (single (by simp))
    intro triple
    cases more with
    | nil => simp at triple
    | cons next more =>
      obtain ⟨rfl, rfl⟩ : last = quote ∧ next = quote := by simpa using triple
      exact apart rfl rfl
  | first :: second :: others => rfl

/-- What follows a string does not matter, unless it makes a triple of two quotes. -/
theorem string_append {quote : Char} (read : string quote text = .ok found) :
    ∃ taken rest, text = taken ++ rest ∧ found.length = taken.length + 1 ∧
      ∀ more, (taken = [quote] → more.head? ≠ some quote) →
        string quote (taken ++ more) = .ok found := by
  -- the width of the opening quotes, of which the first has been read already
  obtain ⟨width, opened⟩ : ∃ width, width = if text.take 2 = [quote, quote] then 3 else 1 := ⟨_, rfl⟩
  have opening : text = List.replicate (width - 1) quote ++ text.drop (width - 1) := by
    subst opened
    split
    case isTrue triple => exact (triple ▸ List.take_append_drop 2 text).symm
    case isFalse => rfl
  unfold string at read
  simp only [← opened] at read
  split at read
  case h_2 => cases read
  case h_1 closed =>
    obtain ⟨taken, rest, left, rfl, same⟩ := close?_taken closed
    rw [left, ← List.append_assoc] at opening
    have notEmpty : taken ≠ [] := by
      rintro rfl
      cases same []
    -- an empty string has a single quote taken, namely the closing one
    have single : (List.replicate (width - 1) quote ++ taken).length < 2 →
        ¬text.take 2 = [quote, quote] := by
      intro short triple
      rw [opened, if_pos triple] at short
      simp only [List.length_append, List.length_replicate] at short
      omega
    refine ⟨List.replicate (width - 1) quote ++ taken, rest, opening, ?_, ?_⟩
    · rw [lexeme_length read]
      have some : 1 ≤ width := by
        subst opened
        split <;> decide
      simp only [List.length_reverse, List.length_append, List.length_replicate]
      omega
    · intro more apart
      rw [opening] at single
      have sameOpening := take_two_append (by simp [notEmpty]) single apart
      rw [← opening] at sameOpening
      unfold string
      dsimp only
      simp only [sameOpening, ← opened]
      rw [List.append_assoc, List.drop_left' (by simp), same more]
      exact read

theorem backtick_append (read : backtick text = .ok found) :
    ∃ taken rest, text = taken ++ rest ∧ found.length = taken.length + 1 ∧
      ∀ more, backtick (taken ++ more) = .ok found := by
  by_cases closed : '`' ∈ text
  · obtain ⟨body, rest, rfl, isOpen⟩ := List.eq_append_cons_of_mem closed
    rw [backtick_closed isOpen] at read
    refine ⟨body ++ ['`'], rest, by simp, ?_, fun more => ?_⟩
    · rw [lexeme_length read]
      simp
    · rw [List.append_assoc, List.singleton_append, backtick_closed isOpen]
      exact read
  · -- a text that is not closed goes on to the end
    have whole : text.takeWhile (· ≠ '`') = text :=
      List.takeWhile_eq_self_iff.mpr fun c among => decide_eq_true fun same => closed (same ▸ among)
    unfold backtick at read
    dsimp only at read
    rw [whole, if_neg (Nat.lt_irrefl _)] at read
    cases read

end Quotation

/-! ### Marks -/

/-- Marks start no word, no literal between quotes, and no number by themselves. -/
private theorem plain_of_mark {kind : Kind} (isMark : mark? c = some kind) :
    isWordStart c = false ∧ c ≠ '`' ∧ ¬(c = '\'' ∨ c = '"') ∧ isDigit c = false := by
  unfold mark? at isMark
  split at isMark <;> first | decide +kernel | cases isMark

theorem lexeme_of_mark {kind : Kind} (isMark : mark? c = some kind) (text : List Char) :
    lexeme c text = match text with
      | [] => .ok ⟨kind, 1, .absent, isOpenMark c⟩
      | second :: tail =>
        if startsNumber c second then Numeral.read [second, c] tail
        else match doubleMark? c second with
          | some double => .ok ⟨double, 2, .absent, false⟩
          | none => .ok ⟨kind, 1, .absent, isOpenMark c⟩ := by
  have ⟨noStart, noBacktick, noQuote, noDigit⟩ := plain_of_mark isMark
  cases text with
  | nil => simp [lexeme, noStart, noBacktick, noQuote, noDigit, isMark]
  | cons second tail =>
    cases isDouble : doubleMark? c second <;>
      simp [lexeme, noStart, noBacktick, noQuote, noDigit, isMark, isDouble]

theorem endsBefore_of_mark {kind : Kind} (isMark : mark? c = some kind) (rest : List Char) (d : Char) :
    endsBefore (c :: rest) d = match rest with
      | [] => !startsNumber c d && (doubleMark? c d).isNone
      | second :: _ => !startsNumber c second || endsNumber d := by
  have ⟨noStart, noBacktick, noQuote, noDigit⟩ := plain_of_mark isMark
  cases rest <;> simp [endsBefore, noStart, noBacktick, noQuote, noDigit]

/-- The character goes on with no word, number or mark, and it opens no string. -/
def endsToken (d : Char) : Bool :=
  endsNumber d && !(['\'', '"', '=', '<', '>', '/', '*', '&', '|'].contains d)

theorem endsBefore_of_endsToken {d : Char} (ends : endsToken d) (c : Char) (rest : List Char) :
    endsBefore (c :: rest) d := by
  obtain ⟨noNumber, others⟩ := Bool.and_eq_true_iff.mp ends
  obtain ⟨noWord, noSign⟩ := Bool.and_eq_true_iff.mp noNumber
  have noWord : isWordChar d = false := by simpa using noWord
  have noPoint : d ≠ '.' := by
    rintro rfl
    exact absurd noSign (by decide)
  have noDigit : isDigit d = false := by
    by_contra isDigit
    have inWord := isWordChar_of_isHexDigit (isHexDigit_of_isDigit (by simpa using isDigit))
    exact absurd inWord (by simp [noWord])
  have notSecond : startsNumber c d = false ∧ doubleMark? c d = none := by
    constructor
    · simp [startsNumber, noDigit, noPoint]
    · unfold doubleMark?
      split <;> first | rfl | exact absurd others (by decide)
  rw [endsBefore.eq_def]
  dsimp only
  split_ifs with isStart isBacktick isQuote isFirst
  · simp [noWord]
  · rfl
  · have apart : d ≠ c := by
      rintro rfl
      rcases isQuote with rfl | rfl <;> exact absurd others (by decide)
    simp [apart]
  · exact noNumber
  · cases rest <;> simp [notSecond, noNumber]

/-- Every token ends in front of a bracket or a colon. -/
theorem endsBefore_of_isBracket {d : Char} (bracket : isBracket d) (c : Char) (rest : List Char) :
    endsBefore (c :: rest) d := by
  have isOne : d = '[' ∨ d = ']' ∨ d = ':' := by simpa [isBracket] using bracket
  apply endsBefore_of_endsToken
  rcases isOne with rfl | rfl | rfl <;> decide +kernel

/-- Nothing goes on with a bracket or a colon. -/
theorem endsBefore_bracket {c : Char} (bracket : isBracket c) (d : Char) : endsBefore [c] d := by
  have isOne : c = '[' ∨ c = ']' ∨ c = ':' := by simpa [isBracket] using bracket
  have closed : isOpenMark c = false := by rcases isOne with rfl | rfl | rfl <;> rfl
  obtain ⟨kind, isMark⟩ : ∃ kind, mark? c = some kind := by
    rcases isOne with rfl | rfl | rfl <;> exact ⟨_, rfl⟩
  rw [endsBefore_of_mark isMark]
  have noNumber : startsNumber c d = false := by
    rcases isOne with rfl | rfl | rfl <;> simp [startsNumber]
  simp [noNumber, doubleMark?_eq_none d closed]

/-- What follows a mark, or a number that starts with one, does not matter. -/
theorem lexeme_mark_append {kind : Kind} (isMark : mark? c = some kind)
    (read : lexeme c text = .ok found) :
    ∃ taken rest, text = taken ++ rest ∧ found.length = taken.length + 1 ∧
      ∀ more, (∀ d ∈ more.head?, endsBefore (c :: taken) d) →
        lexeme c (taken ++ more) = .ok found := by
  have single (more : List Char) (ends : ∀ d ∈ more.head?, endsBefore [c] d) :
      lexeme c more = .ok ⟨kind, 1, .absent, isOpenMark c⟩ := by
    rw [lexeme_of_mark isMark]
    cases more with
    | nil => rfl
    | cons d more =>
      have apart := ends d rfl
      rw [endsBefore_of_mark isMark] at apart
      obtain ⟨noNumber, noDouble⟩ : startsNumber c d = false ∧ doubleMark? c d = none := by
        simpa using apart
      simp [noNumber, noDouble]
  rw [lexeme_of_mark isMark] at read
  cases text with
  | nil =>
    cases read
    exact ⟨[], [], rfl, rfl, single⟩
  | cons second tail =>
    dsimp only at read
    split at read
    case isTrue isNumber =>
      obtain ⟨taken, rest, rfl, length, again⟩ := Numeral.read_append read
      refine ⟨second :: taken, rest, rfl, ?_, fun more ends => ?_⟩
      · rw [length]
        simp only [List.length_cons, List.length_nil]
        omega
      · rw [lexeme_of_mark isMark, List.cons_append]
        refine (if_pos isNumber).trans (again more fun d isNext => ?_)
        simpa [endsBefore_of_mark isMark, isNumber] using ends d isNext
    case isFalse noNumber =>
      split at read
      case h_1 double isDouble =>
        cases read
        refine ⟨[second], tail, rfl, rfl, fun more _ => ?_⟩
        rw [lexeme_of_mark isMark, List.singleton_append]
        simp [noNumber, isDouble]
      case h_2 =>
        cases read
        exact ⟨[], second :: tail, rfl, rfl, single⟩

/-! ### Tokens -/

/-- What follows a token does not matter, if the token ends in front of it. -/
theorem lexeme_append (read : lexeme c text = .ok found) :
    ∃ taken rest, text = taken ++ rest ∧ found.length = taken.length + 1 ∧
      ∀ more, (∀ d ∈ more.head?, endsBefore (c :: taken) d) →
        lexeme c (taken ++ more) = .ok found := by
  -- the other cases are those of `lexeme`; marks come last there, but numbers can start with them
  cases isMark : mark? c with
  | some kind => exact lexeme_mark_append isMark read
  | none =>
  unfold lexeme at read
  split at read
  case isTrue isStart =>
    cases read
    refine ⟨text.takeWhile isWordChar, text.dropWhile isWordChar,
      List.takeWhile_append_dropWhile.symm, by rw [word_length, List.length_cons], fun more ends => ?_⟩
    have inside : ∀ d ∈ text.takeWhile isWordChar, isWordChar d := fun d => List.mem_takeWhile_imp
    have stops : more.takeWhile isWordChar = [] := by
      cases more with
      | nil => rfl
      | cons d more =>
        have noWord : isWordChar d = false := by simpa [endsBefore, isStart] using ends d rfl
        rw [List.takeWhile_cons_of_neg (by simp [noWord])]
    rw [lexeme, if_pos isStart, List.takeWhile_append_of_pos inside, stops, List.append_nil]
  case isFalse noStart =>
  split at read
  case isTrue isBacktick =>
    obtain ⟨taken, rest, rfl, length, again⟩ := Quotation.backtick_append read
    refine ⟨taken, rest, rfl, length, fun more _ => ?_⟩
    rw [lexeme, if_neg noStart, if_pos isBacktick, again]
  case isFalse noBacktick =>
  split at read
  case isTrue isQuote =>
    obtain ⟨taken, rest, rfl, length, again⟩ := Quotation.string_append read
    refine ⟨taken, rest, rfl, length, fun more ends => ?_⟩
    rw [lexeme, if_neg noStart, if_neg noBacktick, if_pos isQuote]
    apply again
    intro empty third
    have apart := ends c third
    simp [endsBefore, noStart, noBacktick, isQuote, empty] at apart
  case isFalse noQuote =>
  split at read
  case isTrue isFirst =>
    obtain ⟨taken, rest, rfl, length, again⟩ := Numeral.read_append read
    refine ⟨taken, rest, rfl, by simpa [Nat.add_comm] using length, fun more ends => ?_⟩
    rw [lexeme, if_neg noStart, if_neg noBacktick, if_neg noQuote, if_pos isFirst]
    apply again
    intro d isNext
    simpa [endsBefore, noStart, noBacktick, noQuote, isFirst] using ends d isNext
  case isFalse noDigit =>
    rw [isMark] at read
    cases read

/-! ### What tokens start with -/

theorem lexeme_of_quote {quote : Char} (isQuote : quote = '\'' ∨ quote = '"')
    (rest : List Char) :
    lexeme quote rest = Quotation.string quote rest := by
  have noStart : isWordStart quote = false := by
    rcases isQuote with rfl | rfl <;> decide +kernel
  have noBacktick : quote ≠ '`' := by rcases isQuote with rfl | rfl <;> decide
  rw [lexeme.eq_def, if_neg (by simp [noStart]), if_neg noBacktick, if_pos isQuote]

theorem lexeme_of_backtick (rest : List Char) : lexeme '`' rest = Quotation.backtick rest := by
  have noStart : isWordStart '`' = false := by decide +kernel
  rw [lexeme.eq_def, if_neg (by simp [noStart]), if_pos rfl]

/-- The kinds of the tokens whose values are texts, operator words apart. -/
def Kind.isTextual (k : Kind) : Bool := [.word, .string, .backTick].contains k

theorem Numeral.isTextual_read {opening : List Char}
    (done : Numeral.read opening text = .ok found) : found.kind.isTextual = false := by
  have all : ∀ kind ∈ [Kind.integer, .float, .complex], kind.isTextual = false := by decide
  exact all _ (Numeral.read_kind done)

/-- Neither a mark nor a number has a text for its value. -/
theorem isTextual_of_mark {kind : Kind} (isMark : mark? c = some kind)
    (read : lexeme c text = .ok found) : found.kind.isTextual = false := by
  have marks {kind : Kind}
      (others : kind ∉ [.eof, .newline, .word, .string, .backTick, .integer, .float, .complex]) :
      kind.isTextual = false := by
    cases kind <;> first | rfl | exact absurd (by decide) others
  rw [lexeme_of_mark isMark] at read
  split at read
  · cases read
    exact marks (mark?_kind isMark)
  · split at read
    · exact Numeral.isTextual_read read
    · split at read
      case h_1 double isDouble =>
        cases read
        exact marks (doubleMark?_kind isDouble)
      case h_2 =>
        cases read
        exact marks (mark?_kind isMark)

/-- Words start with letters, and strings with quotes. -/
theorem starts_of_lexeme (read : lexeme c text = .ok found) :
    (found.kind = .word → isWordStart c) ∧ (found.kind = .string → c = '\'' ∨ c = '"') := by
  cases isMark : mark? c with
  | some kind =>
    have plain := isTextual_of_mark isMark read
    constructor <;> intro isKind <;> rw [isKind] at plain <;> cases plain
  | none =>
  unfold lexeme at read
  split at read
  case isTrue isStart =>
    cases read
    refine ⟨fun _ => isStart, fun isString => ?_⟩
    have others : ∀ entry ∈ keywords, entry.2.1 ≠ .string := by decide
    rcases word_cases (c :: text.takeWhile isWordChar) with ⟨isWord, -⟩ | ⟨entry, among, isKind⟩
    · rw [isWord] at isString
      cases isString
    · exact absurd (isKind.symm.trans isString) (others entry among)
  split at read
  · have isKind := Quotation.backtick_kind read
    constructor <;> intro other <;> rw [isKind] at other <;> cases other
  split at read
  case isTrue isQuote =>
    have isKind := Quotation.string_kind read
    exact ⟨fun other => (by rw [isKind] at other; cases other), fun _ => isQuote⟩
  split at read
  · have plain := Numeral.isTextual_read read
    constructor <;> intro isKind <;> rw [isKind] at plain <;> cases plain
  · rw [isMark] at read
    cases read

end Token

end LazyConfig
