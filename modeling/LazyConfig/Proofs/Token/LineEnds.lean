import LazyConfig.Proofs.Token.Extent
import Mathlib.Data.List.TakeWhile

/-!
# Line ends

A text in which every line feed has a carriage return in front of it is read as the same tokens, and
breaks off with the same error. Only a text between quotes or backticks keeps its line ends, so none
of these may go on over a line end.

Two readings are compared that stand at the same location of both texts. What a token depends on
ends in front of a line feed, and a line feed as well as a carriage return ends every token that
could go on.
-/

namespace LazyConfig.Token

open Text (isWordChar isWordStart isBlank isDigit)

/-- The text with the line end put in the place of every line feed. -/
def endLines (ending text : List Char) : List Char :=
  text.flatMap fun c => if c = '\n' then ending else [c]

/-- The cursor at the same place of the text with other line ends. -/
def Cursor.endLines (ending : List Char) (here : Cursor) : Cursor :=
  { here with rest := Token.endLines ending here.rest }

variable {ending more text rest : List Char} {c : Char}

@[simp] theorem endLines_nil : endLines ending [] = [] := rfl

@[simp] theorem endLines_lineFeed (rest : List Char) :
    endLines ending ('\n' :: rest) = ending ++ endLines ending rest := rfl

theorem endLines_cons (other : c ≠ '\n') (rest : List Char) :
    endLines ending (c :: rest) = c :: endLines ending rest := by
  simp [endLines, other]

/-- A text that starts in a line starts with the same character. -/
theorem head?_endLines (noFeed : text.head? ≠ some '\n') :
    (endLines ending text).head? = text.head? := by
  cases text with
  | nil => rfl
  | cons c rest => rw [endLines_cons (by simpa using noFeed)]; rfl

theorem endLines_append (first second : List Char) :
    endLines ending (first ++ second) = endLines ending first ++ endLines ending second := by
  simp [endLines]

theorem filter_ne_of_not_mem {mark : Char} (none : mark ∉ text) :
    text.filter (· ≠ mark) = text := by
  refine List.filter_eq_self.mpr fun c among => ?_
  simpa using ne_of_mem_of_not_mem among none

/-- A text without line feeds stays as it is. -/
theorem endLines_of_not_mem (noFeed : '\n' ∉ text) : endLines ending text = text := by
  induction text with
  | nil => rfl
  | cons c rest ih =>
    rw [endLines_cons (fun same => noFeed (same ▸ List.mem_cons_self)),
      ih fun among => noFeed (List.mem_cons_of_mem c among)]

/-- The other text starts in the same way, up to the first line feed. -/
theorem take_endLines {count : Nat} (noFeed : '\n' ∉ text.take count) :
    (endLines ending text).take count = text.take count := by
  have split : endLines ending text = text.take count ++ endLines ending (text.drop count) := by
    rw [← @endLines_of_not_mem ending _ noFeed, ← endLines_append,
      List.take_append_drop]
  rcases Nat.le_total count text.length with inside | beyond
  · rw [split, List.take_left' (by rw [List.length_take, Nat.min_eq_left inside])]
  · rw [split, List.drop_eq_nil_of_le beyond, endLines_nil, List.append_nil, List.take_take,
      Nat.min_self]

/-- Reading characters of a kind that no line end belongs to comes to the same in both texts. -/
theorem takeWhile_endLines {p : Char → Bool} (noFeed : p '\n' = false) (noReturn : p '\r' = false)
    (text : List Char) : (endLines ('\r' :: more) text).takeWhile p = text.takeWhile p := by
  induction text with
  | nil => rfl
  | cons c rest ih =>
    by_cases feed : c = '\n'
    · subst feed
      simp [noFeed, noReturn]
    · simp only [endLines_cons feed, List.takeWhile_cons, ih]

/-- A text starts with a character that ends no line if and only if the other one does. -/
theorem take_endLines_eq_iff {quote : Char} (noFeed : quote ≠ '\n') (noReturn : quote ≠ '\r') :
    (endLines ('\r' :: more) text).take 2 = [quote, quote] ↔ text.take 2 = [quote, quote] := by
  have other {c : Char} : c = '\n' → ¬ c = quote := fun feed same => noFeed (same ▸ feed)
  rcases text with _ | ⟨first, _ | ⟨second, rest⟩⟩
  · simp
  · by_cases feed : first = '\n'
    · subst feed
      simp [noReturn.symm]
    · simp [endLines_cons feed]
  · by_cases feed : first = '\n'
    · subst feed
      simp [noReturn.symm, noFeed.symm]
    · rw [endLines_cons feed]
      by_cases feed : second = '\n'
      · subst feed
        simp [noReturn.symm, noFeed.symm]
      · simp [endLines_cons feed]

/-- The characters that a line can end with. -/
def isLineEnd (c : Char) : Bool := c = '\n' || c = '\r'

/-- The other text is empty, starts with a carriage return in the place of a line feed, or goes on
in the same way. -/
theorem endLines_shape (text : List Char) :
    (text = [] ∧ endLines ('\r' :: more) text = []) ∨
      (∃ rest, text = '\n' :: rest ∧
        endLines ('\r' :: more) text = '\r' :: (more ++ endLines ('\r' :: more) rest)) ∨
      ∃ c rest, text = c :: rest ∧ c ≠ '\n' ∧
        endLines ('\r' :: more) text = c :: endLines ('\r' :: more) rest := by
  rcases text with _ | ⟨c, rest⟩
  · exact .inl ⟨rfl, rfl⟩
  · by_cases feed : c = '\n'
    · subst feed
      exact .inr (.inl ⟨rest, rfl, rfl⟩)
    · exact .inr (.inr ⟨c, rest, rfl, feed, endLines_cons feed rest⟩)

/-- How many characters are taken by a token, or read until a fault in it is noticed. -/
def extent : Except Misread Lexeme → Nat
  | .ok found => found.length
  | .error misread => misread.length

/-- How many characters a token has, or stand in front of the offending one. -/
def shown : Except Misread Lexeme → Nat
  | .ok found => found.length
  | .error misread => misread.offset

/-! ### Number literals -/

namespace Numeral

/-- No literal goes on over the end of a line. -/
theorem Scan.step_of_isLineEnd (s : Scan) (ends : isLineEnd c) : s.step c = .finish := by
  have isOne : c = '\n' ∨ c = '\r' := by simpa [isLineEnd] using ends
  have plain : isDigit c = false ∧ Text.isHexDigit c = false := by
    rcases isOne with rfl | rfl <;> decide
  have noDigit : isDigitIn s.radix c = false := by
    unfold isDigitIn
    split <;> simp [plain]
  have noMark : c ≠ '_' ∧ radix? c = none ∧ s.allows c = false := by
    rcases isOne with rfl | rfl <;> simp [radix?, Scan.allows, Scan.isExponentMark]
  simp [Scan.step, noDigit, noMark]

/-- What a literal takes of a text is none of its line feeds. -/
theorem Scan.run_taken {s longer : Scan} (ran : s.run text = .ok (longer, rest)) :
    ∃ taken, text = taken ++ rest ∧ longer.text = taken.reverse ++ s.text ∧ '\n' ∉ taken := by
  induction text generalizing s with
  | nil =>
    cases ran
    exact ⟨[], rfl, rfl, List.not_mem_nil⟩
  | cons c text ih =>
    unfold Scan.run at ran
    split at ran
    case h_1 next extended =>
      obtain ⟨taken, rfl, whole, noFeed⟩ := ih ran
      have isNext : next.text = c :: s.text := by
        unfold Scan.step at extended
        split_ifs at extended <;> cases extended <;> rfl
      have other : c ≠ '\n' := by
        rintro rfl
        rw [Scan.step_of_isLineEnd s rfl] at extended
        cases extended
      refine ⟨c :: taken, rfl, ?_, ?_⟩
      · rw [whole, isNext, List.reverse_cons, List.append_assoc, List.singleton_append]
      · exact fun among => (List.mem_cons.mp among).elim (other ·.symm) noFeed
    case h_2 =>
      cases ran
      exact ⟨[], rfl, rfl, List.not_mem_nil⟩
    case h_3 => cases ran

/-- An underscore that is misplaced stands in the line of its literal. -/
theorem Scan.run_misplaced {s : Scan} {misread : Misread} (failed : s.run text = .error misread) :
    ∃ taken rest, text = taken ++ rest ∧ misread.offset = taken.length + s.text.length ∧
      '\n' ∉ taken := by
  induction text generalizing s with
  | nil => cases failed
  | cons c text ih =>
    unfold Scan.run at failed
    split at failed
    case h_1 next extended =>
      obtain ⟨taken, rest, rfl, offset, noFeed⟩ := ih failed
      have isNext : next.text = c :: s.text := by
        unfold Scan.step at extended
        split_ifs at extended <;> cases extended <;> rfl
      have other : c ≠ '\n' := by
        rintro rfl
        rw [Scan.step_of_isLineEnd s rfl] at extended
        cases extended
      refine ⟨c :: taken, rest, rfl, ?_, ?_⟩
      · rw [offset, isNext, List.length_cons, List.length_cons]
        omega
      · exact fun among => (List.mem_cons.mp among).elim (other ·.symm) noFeed
    case h_2 => cases failed
    case h_3 =>
      cases failed
      exact ⟨[], c :: text, rfl, (Nat.zero_add _).symm, List.not_mem_nil⟩

/-- Both texts go on a literal in the same way. -/
theorem Scan.run_endLines (s : Scan) (text : List Char) :
    s.run (endLines ('\r' :: more) text) =
      (s.run text).map fun (longer, rest) => (longer, endLines ('\r' :: more) rest) := by
  induction text generalizing s with
  | nil => rfl
  | cons c text ih =>
    by_cases feed : c = '\n'
    · subst feed
      have first : s.step '\n' = .finish := Scan.step_of_isLineEnd s rfl
      have second : s.step '\r' = .finish := Scan.step_of_isLineEnd s rfl
      simp only [endLines_lineFeed, List.cons_append, Scan.run, first, second, Except.map]
    · rw [endLines_cons feed]
      unfold Scan.run
      cases s.step c with
      | extend longer => exact ih longer
      | finish => simp only [Except.map, endLines_cons feed]
      | misplacedUnderscore => rfl

/-- Both texts end a literal in the same way. -/
theorem Scan.finish_endLines (s : Scan) (text : List Char) :
    s.finish (endLines ('\r' :: more) text) = s.finish text := by
  rcases @endLines_shape more text with ⟨rfl, same⟩ | ⟨rest, rfl, same⟩ | ⟨c, rest, rfl, -, same⟩
  · rw [same]
  · -- neither of the two characters is an imaginary mark, a point or alphanumeric
    have plain : Text.isAlphanumeric '\n' = false ∧ Text.isAlphanumeric '\r' = false := by
      decide +kernel
    rw [same]
    simp [Scan.finish, plain]
  · rw [same]
    simp [Scan.finish]

theorem read_endLines (opening text : List Char) :
    read opening (endLines ('\r' :: more) text) = read opening text := by
  unfold read
  dsimp only
  rw [Scan.run_endLines]
  cases Scan.run { text := opening, afterDigit := opening.head?.any isDigit } text with
  | error => rfl
  | ok result => exact Scan.finish_endLines result.1 result.2

/-- A literal ends with the characters that have been read, or with an imaginary mark behind them. -/
theorem Scan.finish_shown (s : Scan) (text : List Char) :
    shown (s.finish text) ≤ s.text.length ∨
      ∃ mark rest, text = mark :: rest ∧ mark ≠ '\n' ∧
        shown (s.finish text) = s.text.length + 1 := by
  have closed (mark : List Char) : shown (s.close mark) ≤ s.text.length + mark.length := by
    unfold Scan.close
    dsimp only
    split <;> simp [shown]
  unfold Scan.finish
  split
  · exact .inl (Nat.sub_le _ 1)
  split
  · exact .inl (closed [])
  split
  case isTrue marked =>
    rcases Nat.lt_or_ge s.text.length (shown (s.close [_])) with one | none
    · refine .inr ⟨_, _, rfl, ?_, le_antisymm (closed _) one⟩
      rintro rfl
      simp at marked
    · exact .inl none
  split
  · exact .inl le_rfl
  · exact .inl (closed [])

/-- A literal that opens in a line stays in it. -/
theorem read_taken {opening : List Char} (noFeed : '\n' ∉ opening) (text : List Char) :
    '\n' ∉ (opening.reverse ++ text).take (shown (read opening text)) := by
  have among {taken : List Char} (none : '\n' ∉ taken) : '\n' ∉ opening.reverse ++ taken := by
    simpa using ⟨noFeed, none⟩
  unfold read
  dsimp only
  cases ran : Scan.run { text := opening, afterDigit := opening.head?.any isDigit } text with
  | error misread =>
    obtain ⟨taken, rest, rfl, offset, none⟩ := Scan.run_misplaced ran
    change '\n' ∉ (opening.reverse ++ (taken ++ rest)).take misread.offset
    rw [offset, ← List.append_assoc, List.take_left' (by simp [Nat.add_comm])]
    exact among none
  | ok result =>
    obtain ⟨longer, rest⟩ := result
    obtain ⟨taken, rfl, whole, none⟩ := Scan.run_taken ran
    have length : (opening.reverse ++ taken).length = longer.text.length := by
      simp [whole, Nat.add_comm]
    change '\n' ∉ (opening.reverse ++ (taken ++ rest)).take (shown (longer.finish rest))
    rw [← List.append_assoc]
    rcases longer.finish_shown rest with fits | ⟨mark, rest, rfl, other, oneMore⟩
    · rw [List.take_append_of_le_length (length ▸ fits)]
      exact fun inside => among none (List.mem_of_mem_take inside)
    · rw [oneMore, List.append_cons, List.take_left' (by rw [← length, List.length_append]; rfl)]
      intro inside
      rcases List.mem_append.mp inside with inside | isMark
      · exact among none inside
      · exact other (List.mem_singleton.mp isMark).symm

end Numeral

/-! ### Literals between quotes -/

namespace Quotation

/-- Where a literal ends depends on nothing behind its end. -/
theorem close?_taken {quote : Char} {triple escaped : Bool} {seen found : List Char}
    (closed : close? quote triple seen escaped text = some found) :
    ∃ taken rest, text = taken ++ rest ∧ found = taken.reverse ++ seen ∧
      ∀ other, close? quote triple seen escaped (taken ++ other) = some found := by
  induction text generalizing seen escaped with
  | nil => cases closed
  | cons c text ih =>
    unfold close? at closed
    dsimp only at closed
    split at closed
    case isTrue ends =>
      cases closed
      refine ⟨[c], text, rfl, rfl, fun other => ?_⟩
      rw [List.singleton_append, close?]
      exact if_pos ends
    case isFalse goesOn =>
      obtain ⟨taken, rest, rfl, rfl, same⟩ := ih closed
      refine ⟨c :: taken, rest, rfl, by simp, fun other => ?_⟩
      rw [List.cons_append, close?]
      rw [if_neg goesOn]
      exact same other

theorem extent_lexeme (kind : Kind) (width : Nat) (text : List Char) :
    extent (lexeme kind width text) = text.length := by
  unfold lexeme
  dsimp only
  split <;> rfl

/-- A string that goes on over no line feed is read in the same way from both texts. -/
theorem string_endLines {quote : Char} (isQuote : quote ≠ '\n' ∧ quote ≠ '\r')
    (inLine : '\n' ∉ (quote :: text).take (extent (string quote text))) :
    string quote (endLines ('\r' :: more) text) = string quote text := by
  -- the quotes that open the string stay where they are
  obtain ⟨width, opened⟩ : ∃ width, width = if text.take 2 = [quote, quote] then 3 else 1 := ⟨_, rfl⟩
  have opening : quote :: text = List.replicate width quote ++ text.drop (width - 1) ∧
      (endLines ('\r' :: more) text).drop (width - 1) =
        endLines ('\r' :: more) (text.drop (width - 1)) := by
    subst opened
    split
    case isTrue triple =>
      have split := List.take_append_drop 2 text
      rw [triple] at split
      rw [← split]
      simp [endLines_cons isQuote.1, List.replicate]
    case isFalse => simp
  unfold string at inLine ⊢
  simp only [take_endLines_eq_iff isQuote.1 isQuote.2, ← opened, opening.2] at inLine ⊢
  cases closed : close? quote (text.take 2 = [quote, quote]) (List.replicate width quote) false
      (text.drop (width - 1)) with
  | none =>
    rw [closed] at inLine
    have none : '\n' ∉ text := by
      rw [extent, List.take_of_length_le le_rfl] at inLine
      exact fun among => inLine (List.mem_cons_of_mem quote among)
    have noneLeft : '\n' ∉ text.drop (width - 1) := fun among => none (List.mem_of_mem_drop among)
    rw [endLines_of_not_mem none, endLines_of_not_mem noneLeft, closed]
  | some found =>
    obtain ⟨taken, rest, left, rfl, same⟩ := close?_taken closed
    rw [closed, extent_lexeme, opening.1, left] at inLine
    have none : '\n' ∉ taken := by
      intro among
      apply inLine
      rw [← List.append_assoc, List.take_left' (by simp)]
      exact List.mem_append_right _ among
    rw [left, endLines_append, endLines_of_not_mem none, same]

theorem shown_lexeme_le (kind : Kind) (width : Nat) (text : List Char) :
    shown (lexeme kind width text) ≤ extent (lexeme kind width text) := by
  unfold lexeme
  dsimp only
  split
  · exact le_rfl
  · exact Nat.zero_le _

theorem shown_string_le (quote : Char) (text : List Char) :
    shown (string quote text) ≤ extent (string quote text) := by
  unfold string
  dsimp only
  split
  · exact shown_lexeme_le _ _ _
  · exact Nat.zero_le _

theorem shown_backtick_le (text : List Char) : shown (backtick text) ≤ extent (backtick text) := by
  unfold backtick
  dsimp only
  split
  · exact shown_lexeme_le _ _ _
  · exact Nat.zero_le _

/-- A conversion text ends with the first backtick. -/
theorem backtick_closed {body : List Char} (isOpen : '`' ∉ body) (rest : List Char) :
    backtick (body ++ '`' :: rest) = lexeme .backTick 1 ('`' :: body ++ ['`']) := by
  have isBody : (body ++ '`' :: rest).takeWhile (· ≠ '`') = body := by
    rw [List.takeWhile_append_of_pos fun c among => ?_]
    · simp
    · exact decide_eq_true fun same => isOpen (same ▸ among)
  unfold backtick
  dsimp only
  rw [isBody, if_pos (by simp)]

/-- A conversion text that goes on over no line feed is read in the same way from both texts. -/
theorem backtick_endLines (inLine : '\n' ∉ ('`' :: text).take (extent (backtick text))) :
    backtick (endLines ('\r' :: more) text) = backtick text := by
  by_cases closed : '`' ∈ text
  · obtain ⟨body, rest, rfl, isOpen⟩ := List.eq_append_cons_of_mem closed
    rw [backtick_closed isOpen, extent_lexeme] at inLine
    have none : '\n' ∉ body := by
      intro among
      apply inLine
      rw [← List.singleton_append (l := rest), ← List.append_assoc, ← List.cons_append,
        List.take_left' (by simp)]
      simp [among]
    rw [endLines_append, endLines_of_not_mem none, endLines_cons (by decide),
      backtick_closed isOpen, backtick_closed isOpen]
  · -- a text that is not closed goes on to the end
    have whole : text.takeWhile (· ≠ '`') = text :=
      List.takeWhile_eq_self_iff.mpr fun c among => decide_eq_true fun same => closed (same ▸ among)
    have none : '\n' ∉ text := by
      unfold backtick at inLine
      dsimp only at inLine
      rw [whole, if_neg (Nat.lt_irrefl _), extent, List.take_of_length_le le_rfl] at inLine
      exact fun among => inLine (List.mem_cons_of_mem _ among)
    rw [endLines_of_not_mem none]

end Quotation

/-! ### Tokens -/

/-- Whether a character opens a string or a conversion text. -/
def isQuote (c : Char) : Bool := c = '\'' || c = '"' || c = '`'

/-- A token that starts with the same character of both texts is the same, or the same is wrong with
it, unless a literal between quotes goes on over a line feed. -/
theorem lexeme_endLines
    (inLine : isQuote c → '\n' ∉ (c :: text).take (extent (lexeme c text))) :
    lexeme c (endLines ('\r' :: more) text) = lexeme c text := by
  unfold lexeme at inLine ⊢
  split
  · -- a word
    have noWord : isWordChar '\n' = false ∧ isWordChar '\r' = false := by decide +kernel
    rw [takeWhile_endLines noWord.1 noWord.2]
  rename_i noWord
  rw [if_neg noWord] at inLine
  split
  case isTrue isBacktick =>
    subst isBacktick
    exact Quotation.backtick_endLines (inLine rfl)
  rename_i noBacktick
  rw [if_neg noBacktick] at inLine
  split
  case isTrue isString =>
    rw [if_pos isString] at inLine
    refine Quotation.string_endLines ?_ (inLine (by simpa [isQuote] using .inl isString))
    rcases isString with rfl | rfl <;> decide
  rename_i noString
  split
  · rw [Numeral.read_endLines]
  split
  · rfl
  · -- a mark, which the next character may go on with
    rcases @endLines_shape more text with
      ⟨rfl, same⟩ | ⟨rest, rfl, same⟩ | ⟨second, rest, rfl, -, same⟩
    · rw [same]
    · have alone (next : Char) (ends : next = '\n' ∨ next = '\r') :
          startsNumber c next = false ∧ doubleMark? c next = none := by
        constructor
        · rcases ends with rfl | rfl <;> simp [startsNumber, isDigit]
        · unfold doubleMark?
          rcases ends with rfl | rfl <;> split <;> simp_all
      rw [same]
      simp [alone]
    · rw [same]
      simp only [Numeral.read_endLines]

/-- A number that starts with its point or its sign goes on in the same line, and so does a mark of
two characters. -/
theorem ne_lineFeed_of_second {second : Char}
    (goesOn : startsNumber c second = true ∨ (doubleMark? c second).isSome) : second ≠ '\n' := by
  rintro rfl
  rcases goesOn with isNumber | isDouble
  · simp [startsNumber, isDigit] at isNumber
  · unfold doubleMark? at isDouble
    split at isDouble <;> simp_all

theorem shown_le_of_isQuote (isQuoted : isQuote c) :
    shown (lexeme c text) ≤ extent (lexeme c text) := by
  unfold lexeme
  split
  · exact le_rfl
  split
  · exact Quotation.shown_backtick_le text
  split
  · exact Quotation.shown_string_le c text
  · rename_i noBacktick noString
    simp only [isQuote, Bool.or_eq_true, decide_eq_true_eq] at isQuoted
    exact (isQuoted.elim noString noBacktick).elim

/-- The characters of a token stand in one line, unless a literal between quotes goes on over a line
feed, and so do those in front of an offending one. -/
theorem lexeme_shown (start : c ≠ '\n')
    (inLine : isQuote c → '\n' ∉ (c :: text).take (extent (lexeme c text))) :
    '\n' ∉ (c :: text).take (shown (lexeme c text)) := by
  by_cases isQuoted : isQuote c
  · exact fun among => inLine isQuoted
      (List.take_subset_take_left _ (shown_le_of_isQuote isQuoted) among)
  simp only [isQuote, Bool.or_eq_true, decide_eq_true_eq, not_or] at isQuoted
  unfold lexeme
  split
  · -- the characters of a word
    have whole : (c :: text).take (shown (.ok (word (c :: text.takeWhile isWordChar)))) =
        c :: text.takeWhile isWordChar := by
      rw [shown, word_length, List.length_cons, List.take_succ_cons,
        ← List.prefix_iff_eq_take.mp (List.takeWhile_prefix _)]
    rw [whole]
    intro among
    rcases List.mem_cons.mp among with same | among
    · exact start same.symm
    · have noWord : isWordChar '\n' = false := by decide +kernel
      exact absurd (List.mem_takeWhile_imp among) (by simp [noWord])
  split
  · exact absurd ‹c = '`'› isQuoted.2
  split
  · exact absurd ‹c = '\'' ∨ c = '"'› (not_or.mpr isQuoted.1)
  split
  · exact @Numeral.read_taken [c] (by simpa using start.symm) text
  split
  · simp [shown]
  have one : '\n' ∉ (c :: text).take 1 := by simpa using start.symm
  split
  · exact one
  rename_i second tail
  split
  case isTrue isNumber =>
    have next := ne_lineFeed_of_second (.inl isNumber)
    exact @Numeral.read_taken [second, c] (by simpa using ⟨next.symm, start.symm⟩) tail
  split
  case h_1 isDouble =>
    have next := ne_lineFeed_of_second (.inr (Option.isSome_of_eq_some isDouble))
    simpa [shown] using ⟨start.symm, next.symm⟩
  case h_2 => exact one

/-! ### Readings -/

/-- A carriage return and a line feed. -/
def returnFeed : List Char := ['\r', '\n']

/-- A carriage return in front of a line feed makes no difference to what stands behind it. -/
theorem advance_endLines (l : Location) (text : List Char) :
    l.advance (endLines returnFeed text) = l.advance text := by
  induction text generalizing l with
  | nil => rfl
  | cons c rest ih =>
    by_cases feed : c = '\n'
    · subst feed
      rw [endLines_lineFeed, Location.advance_append, ih]
      rfl
    · rw [endLines_cons feed, Location.advance_cons, Location.advance_cons, ih]

theorem line_advance (l : Location) (text : List Char) :
    (l.advance text).line = l.line + text.count '\n' := by
  induction text generalizing l with
  | nil => rfl
  | cons c rest ih =>
    rw [Location.advance_cons, ih, Location.after]
    by_cases feed : c = '\n'
    · subst feed
      simp only [if_true, Location.nextLine, List.count_cons_self]
      omega
    · simp [feed]

variable {here : Cursor} {count : Nat}

/-- The cursors behind the same characters of both texts. -/
theorem skip_endLines (here : Cursor) (count : Nat) :
    (here.endLines returnFeed).skip (endLines returnFeed (here.rest.take count)).length =
      (here.skip count).endLines returnFeed := by
  have split : endLines returnFeed here.rest =
      endLines returnFeed (here.rest.take count) ++ endLines returnFeed (here.rest.drop count) := by
    rw [← endLines_append, List.take_append_drop]
  simp only [Cursor.skip, Cursor.endLines, split, List.drop_left, List.take_left, advance_endLines]

theorem skip_endLines_of_not_mem (noFeed : '\n' ∉ here.rest.take count) :
    (here.endLines returnFeed).skip count = (here.skip count).endLines returnFeed := by
  rcases Nat.le_total count here.rest.length with inside | beyond
  · rw [← skip_endLines, endLines_of_not_mem noFeed, List.length_take, Nat.min_eq_left inside]
  · have none : '\n' ∉ here.rest := List.take_of_length_le beyond ▸ noFeed
    simp only [Cursor.skip, Cursor.endLines, endLines_of_not_mem none,
      List.drop_eq_nil_of_le beyond, endLines_nil]

theorem spanOf_endLines (noFeed : '\n' ∉ here.rest.take count) :
    (here.endLines returnFeed).spanOf count = here.spanOf count := by
  simp only [Cursor.spanOf, Cursor.endLines, take_endLines noFeed]

/-- The fault is one of a literal between quotes or backticks, and it is located at its start. -/
def Fault.isQuoted : Fault → Bool
  | .escape _ | .openString _ | .openBacktick _ => true
  | _ => false

/-- A literal between quotes or backticks, closed or not, has no line feed in it. -/
def InLine (behind : Cursor) : Except Error Token → Prop
  | .ok token => token.kind = .string ∨ token.kind = .backTick → '\n' ∉ token.text.toList
  | .error e => e.fault.isQuoted → behind.location.line = e.location.line

instance (behind : Cursor) : (result : Except Error Token) → Decidable (InLine behind result)
  | .ok token => inferInstanceAs (Decidable (token.kind = .string ∨ token.kind = .backTick → _))
  | .error e => inferInstanceAs (Decidable (e.fault.isQuoted → _))

theorem Quotation.lexeme_quoted {kind : Kind} {width : Nat} {misread : Misread}
    (failed : Quotation.lexeme kind width text = .error misread) :
    misread.fault.isQuoted ∧ misread.offset = 0 := by
  unfold Quotation.lexeme at failed
  dsimp only at failed
  split at failed <;> cases failed
  exact ⟨rfl, rfl⟩

/-- What is wrong with a literal between quotes is located at its start. -/
theorem quoted_of_error {misread : Misread} (isQuoted : isQuote c)
    (failed : lexeme c text = .error misread) : misread.fault.isQuoted ∧ misread.offset = 0 := by
  unfold lexeme at failed
  split at failed
  · cases failed
  split at failed
  · unfold Quotation.backtick at failed
    dsimp only at failed
    split at failed
    · exact Quotation.lexeme_quoted failed
    · cases failed
      exact ⟨rfl, rfl⟩
  split at failed
  · unfold Quotation.string at failed
    dsimp only at failed
    split at failed
    · exact Quotation.lexeme_quoted failed
    · cases failed
      exact ⟨rfl, rfl⟩
  · rename_i noBacktick noString
    simp only [isQuote, Bool.or_eq_true, decide_eq_true_eq] at isQuoted
    exact (isQuoted.elim noString noBacktick).elim

theorem kind_of_isQuote {found : Lexeme} (isQuoted : isQuote c)
    (read : lexeme c text = .ok found) : found.kind = .string ∨ found.kind = .backTick := by
  have noWord : isWordStart c = false := by
    simp only [isQuote, Bool.or_eq_true, decide_eq_true_eq] at isQuoted
    rcases isQuoted with (rfl | rfl) | rfl <;> decide +kernel
  unfold lexeme at read
  rw [if_neg (by simp [noWord])] at read
  split at read
  · unfold Quotation.backtick at read
    dsimp only at read
    split at read
    · exact .inr (Quotation.lexeme_kind read)
    · cases read
  split at read
  · unfold Quotation.string at read
    dsimp only at read
    split at read
    · exact .inl (Quotation.lexeme_kind read)
    · cases read
  · rename_i noBacktick noString
    simp only [isQuote, Bool.or_eq_true, decide_eq_true_eq] at isQuoted
    exact (isQuoted.elim noString noBacktick).elim

/-- A literal that the reading of a token finds in one line has no line feed in it. -/
theorem not_mem_of_inLine (isRest : here.rest = c :: rest) (isQuoted : isQuote c)
    (inLine : InLine (solid here c rest).behind (solid here c rest).result) :
    '\n' ∉ (c :: rest).take (extent (lexeme c rest)) := by
  unfold solid at inLine
  cases read : lexeme c rest with
  | ok found =>
    rw [read] at inLine
    simpa only [InLine, String.toList_ofList, extent] using inLine (kind_of_isQuote isQuoted read)
  | error misread =>
    obtain ⟨isFault, atStart⟩ := quoted_of_error isQuoted read
    rw [read] at inLine
    have sameLine := inLine isFault
    dsimp only at sameLine
    rw [atStart, Cursor.skip_zero, Cursor.skip, line_advance, isRest] at sameLine
    exact List.count_eq_zero.mp (Nat.add_eq_left.mp sameLine)

/-- The same reading of the text with other line ends: the result is the same, and unless it is an
error, reading goes on at the same place. -/
structure SameReading (reading other : Reading) : Prop where
  result : other.result = reading.result
  behind : ∀ token, reading.result = .ok token → other.behind = reading.behind.endLines returnFeed

theorem solid_endLines (isRest : here.rest = c :: rest) (start : c ≠ '\n')
    (inLine : InLine (solid here c rest).behind (solid here c rest).result) :
    SameReading (solid here c rest)
      (solid (here.endLines returnFeed) c (endLines returnFeed rest)) := by
  have literal := fun isQuoted => not_mem_of_inLine isRest isQuoted inLine
  have oneLine := lexeme_shown start literal
  unfold solid
  rw [show lexeme c (endLines returnFeed rest) = lexeme c rest from lexeme_endLines literal]
  cases read : lexeme c rest with
  | ok found =>
    -- what is taken stands in one line, so it is the same text and the same span
    rw [read, shown] at oneLine
    have sameText : (c :: endLines returnFeed rest).take found.length =
        (c :: rest).take found.length := by
      rw [← endLines_cons start]
      exact take_endLines oneLine
    rw [← isRest] at oneLine
    dsimp only
    rw [sameText, spanOf_endLines oneLine]
    exact ⟨rfl, fun _ _ => skip_endLines_of_not_mem oneLine⟩
  | error misread =>
    rw [read, shown, ← isRest] at oneLine
    refine ⟨?_, fun token isToken => by cases isToken⟩
    dsimp only
    rw [skip_endLines_of_not_mem oneLine]
    rfl

/-- A comment leaves out the carriage return in front of the line feed that ends it. -/
theorem comment_endLines (isRest : here.rest = '#' :: rest) :
    SameReading (comment here rest)
      (comment (here.endLines returnFeed) (endLines returnFeed rest)) := by
  by_cases closed : '\n' ∈ rest
  · obtain ⟨line, tail, rfl, noFeed⟩ := List.eq_append_cons_of_mem closed
    have stop {line : List Char} (noFeed : '\n' ∉ line) (tail : List Char) :
        (line ++ '\n' :: tail).takeWhile (· ≠ '\n') = line := by
      rw [List.takeWhile_append_of_pos fun c among => ?_]
      · simp
      · exact decide_eq_true fun same => noFeed (same ▸ among)
    have other : endLines returnFeed (line ++ '\n' :: tail) =
        (line ++ ['\r']) ++ '\n' :: endLines returnFeed tail := by
      rw [endLines_append, endLines_of_not_mem noFeed, endLines_lineFeed, returnFeed]
      simp
    -- the carriage return is neither shown nor part of the span
    have sameShown : ('#' :: (line ++ ['\r'])).filter (· ≠ '\r') = ('#' :: line).filter (· ≠ '\r') := by
      simp
    have sameVisible : ('#' :: (line ++ ['\r'])).reverse.dropWhile (· = '\r') =
        ('#' :: line).reverse.dropWhile (· = '\r') := by
      simp
    have visible : '\n' ∉ here.rest.take ((('#' :: line).reverse.dropWhile (· = '\r')).length) := by
      have short := (List.dropWhile_sublist (· = '\r') (l := ('#' :: line).reverse)).length_le
      rw [List.length_reverse] at short
      rw [isRest, ← List.cons_append, List.take_append_of_le_length short]
      exact fun among => by simpa [noFeed] using List.mem_of_mem_take among
    unfold comment
    rw [other, stop noFeed, stop (by simpa using noFeed)]
    dsimp only
    rw [sameShown, sameVisible, spanOf_endLines visible]
    refine ⟨rfl, fun _ _ => ?_⟩
    have taken : endLines returnFeed (here.rest.take (('#' :: line).length + 1)) =
        '#' :: (line ++ ['\r', '\n']) := by
      rw [isRest, List.append_cons, ← List.cons_append, List.take_left' (by simp), ← List.cons_append,
        endLines_append, endLines_of_not_mem (by simpa using noFeed)]
      rfl
    have behind := skip_endLines here (('#' :: line).length + 1)
    rw [taken] at behind
    simpa using behind
  · have none : '\n' ∉ here.rest := by simpa [isRest] using closed
    have same : here.endLines returnFeed = here := by
      rw [Cursor.endLines, endLines_of_not_mem none]
    rw [endLines_of_not_mem closed, same]
    refine ⟨rfl, fun _ _ => ?_⟩
    have noneLeft : '\n' ∉ (comment here rest).behind.rest :=
      fun among => none (List.mem_of_mem_drop among)
    rw [Cursor.endLines, endLines_of_not_mem noneLeft]

/-- The span of a line end is the place of its first character. -/
theorem lineEnd_endLines (isRest : here.rest = '\n' :: rest) :
    SameReading (lineEnd here 1 false) (lineEnd (here.endLines returnFeed) 2 false) := by
  have isOther : (here.endLines returnFeed).rest = '\r' :: '\n' :: endLines returnFeed rest := by
    rw [Cursor.endLines, isRest]
    rfl
  refine ⟨?_, fun _ _ => ?_⟩
  · simp only [lineEnd, Cursor.spanOf, isOther, isRest]
    rfl
  · have behind := skip_endLines here 1
    rw [isRest] at behind
    exact behind

theorem strayBackslash_endLines (isRest : here.rest = '\\' :: rest) :
    SameReading (strayBackslash here 1) (strayBackslash (here.endLines returnFeed) 1) := by
  refine ⟨?_, fun _ isToken => by cases isToken⟩
  unfold strayBackslash
  dsimp only
  rw [skip_endLines_of_not_mem (by simp [isRest])]
  rfl

/-! Which rule reads a text is decided by its first characters. -/

theorem head?_ne_of_ne_cons (other : ∀ tail, text = c :: tail → False) : text.head? ≠ some c := by
  cases text with
  | nil => simp
  | cons d rest =>
    rintro ⟨⟩
    exact other rest rfl

variable (cursor : Cursor) (location : Location)

theorem nextFrom_comment (rest : List Char) :
    nextFrom cursor location ('#' :: rest) =
      comment { cursor with rest := '#' :: rest, location } rest := by
  rw [nextFrom.eq_def]
  rfl

theorem nextFrom_returnFeed (rest : List Char) :
    nextFrom cursor location ('\r' :: '\n' :: rest) =
      lineEnd { cursor with rest := '\r' :: '\n' :: rest, location } 2 false := by
  rw [nextFrom.eq_def]
  rfl

theorem nextFrom_continued (rest : List Char) :
    nextFrom cursor location ('\\' :: '\r' :: '\n' :: rest) =
      nextFrom cursor (location.advance ['\\', '\r', '\n']) rest := by
  rw [nextFrom.eq_def]
  rfl

theorem nextFrom_strayBackslash (noFeed : text.head? ≠ some '\n') (noReturn : text.head? ≠ some '\r') :
    nextFrom cursor location ('\\' :: text) =
      strayBackslash { cursor with rest := '\\' :: text, location } 1 := by
  rw [nextFrom.eq_def]
  dsimp only
  rw [if_neg (by decide), if_neg (by decide), if_neg (by decide), if_pos rfl]
  split <;> simp_all

/-- Other first characters than those above. -/
structure IsPlain (c : Char) : Prop where
  noComment : c ≠ '#'
  noFeed : c ≠ '\n'
  noReturn : c ≠ '\r'
  noBackslash : c ≠ '\\'

theorem nextFrom_blank (plain : IsPlain c) (blank : isBlank c = true) (rest : List Char) :
    nextFrom cursor location (c :: rest) = nextFrom cursor (location.after c) rest := by
  rw [nextFrom.eq_def]
  simp only [plain.noComment, plain.noFeed, plain.noReturn, plain.noBackslash, blank, if_false,
    if_true]

theorem nextFrom_solid (plain : IsPlain c) (noBlank : ¬isBlank c = true) (rest : List Char) :
    nextFrom cursor location (c :: rest) = solid { cursor with rest := c :: rest, location } c rest := by
  rw [nextFrom.eq_def]
  dsimp only
  rw [if_neg plain.noComment, if_neg plain.noFeed, if_neg plain.noReturn, if_neg plain.noBackslash,
    if_neg noBlank]

variable {cursor} {location}

/-- Readings at the same place of both texts. -/
theorem nextFrom_endLines (noReturn : '\r' ∉ text)
    (inLine : InLine (nextFrom cursor location text).behind (nextFrom cursor location text).result) :
    SameReading (nextFrom cursor location text)
      (nextFrom (cursor.endLines returnFeed) location (endLines returnFeed text)) := by
  fun_induction nextFrom cursor location text with
  | case1 location => exact ⟨rfl, fun _ _ => rfl⟩
  | case2 location tail here =>
    -- a comment
    rw [endLines_cons (by decide), nextFrom_comment]
    exact @comment_endLines tail here rfl
  | case3 location tail here =>
    -- a line end
    change SameReading _ (nextFrom _ _ ('\r' :: '\n' :: endLines returnFeed tail))
    rw [nextFrom_returnFeed]
    exact @lineEnd_endLines tail here rfl
  -- a text that starts with a carriage return is not among these texts
  | case4 location tail feeds => simp at noReturn
  | case5 location tail _ _ _ => simp at noReturn
  | case6 location tail _ _ _ ih =>
    -- a line that goes on behind a backslash
    have goesOn := ih (fun among => noReturn (by simp [among])) inLine
    change SameReading _ (nextFrom _ _ ('\\' :: '\r' :: '\n' :: endLines returnFeed tail))
    rw [nextFrom_continued]
    exact goesOn
  | case7 location tail _ _ _ ih => simp at noReturn
  | case8 => simp at noReturn
  | case9 location tail noFeed _ noReturn' =>
    -- the backslash is in front of the same character in both texts, which ends no line
    have noEnd : tail.head? ≠ some '\n' ∧ tail.head? ≠ some '\r' :=
      ⟨head?_ne_of_ne_cons noFeed, head?_ne_of_ne_cons noReturn'⟩
    have sameHead : (endLines returnFeed tail).head? = tail.head? := head?_endLines noEnd.1
    rw [endLines_cons (by decide), nextFrom_strayBackslash _ _ (sameHead ▸ noEnd.1) (sameHead ▸ noEnd.2)]
    exact @strayBackslash_endLines tail { cursor with rest := '\\' :: tail, location } rfl
  | case10 location c tail noComment noFeed noReturn' noBackslash blank ih =>
    have goesOn := ih (fun among => noReturn (by simp [among])) inLine
    rw [endLines_cons noFeed, nextFrom_blank _ _ ⟨noComment, noFeed, noReturn', noBackslash⟩ blank]
    exact goesOn
  | case11 location c tail here noComment noFeed noReturn' noBackslash notBlank =>
    have same := @solid_endLines tail c here rfl noFeed inLine
    rw [Cursor.endLines, endLines_cons noFeed] at same
    rw [endLines_cons noFeed, nextFrom_solid _ _ ⟨noComment, noFeed, noReturn', noBackslash⟩ notBlank]
    exact same

/-! ### Whole texts -/

/-- What is left behind a reading is the end of what was left before it. -/
theorem nextFrom_behind (cursor : Cursor) (location : Location) (text : List Char) :
    (nextFrom cursor location text).behind.rest <:+ text ∧
      (nextFrom cursor location text).behind.fault = cursor.fault := by
  fun_induction nextFrom cursor location text with
  | case1 location => exact ⟨List.suffix_rfl, rfl⟩
  | case2 location tail here => exact ⟨List.drop_suffix _ _, rfl⟩
  | case3 location tail here => exact ⟨List.drop_suffix 1 _, rfl⟩
  | case4 location tail feeds => exact ⟨List.drop_suffix 2 _, rfl⟩
  | case5 location tail => exact ⟨List.drop_suffix 1 _, rfl⟩
  | case6 location tail _ _ _ ih => exact ⟨ih.1.trans (List.suffix_append ['\\', '\n'] tail), ih.2⟩
  | case7 location tail _ _ _ ih => exact ⟨ih.1.trans (List.suffix_append ['\\', '\r', '\n'] tail), ih.2⟩
  | case8 location => exact ⟨List.drop_suffix 3 _, rfl⟩
  | case9 location tail => exact ⟨List.drop_suffix 2 _, rfl⟩
  | case10 location c tail _ _ _ _ _ ih => exact ⟨ih.1.trans (List.suffix_cons c tail), ih.2⟩
  | case11 location c tail here =>
    unfold solid
    split
    · exact ⟨List.drop_suffix _ _, rfl⟩
    · exact ⟨List.drop_suffix _ _, rfl⟩

theorem next_behind {behind : Cursor} {result : Except Error Token} (whole : here.fault = none)
    (read : next here = (result, behind)) : behind.rest <:+ here.rest ∧ behind.fault = none := by
  rw [next_of_fault_eq_none whole] at read
  cases read
  obtain ⟨isSuffix, sameFault⟩ := nextFrom_behind here here.location here.rest
  exact ⟨isSuffix, sameFault.trans whole⟩

theorem next_endLines {behind : Cursor} {result : Except Error Token} (whole : here.fault = none)
    (noReturn : '\r' ∉ here.rest) (read : next here = (result, behind))
    (inLine : InLine behind result) :
    ∃ otherBehind, next (here.endLines returnFeed) = (result, otherBehind) ∧
      ∀ token, result = .ok token → otherBehind = behind.endLines returnFeed := by
  rw [next_of_fault_eq_none whole] at read
  cases read
  obtain ⟨sameResult, sameBehind⟩ := nextFrom_endLines noReturn inLine
  rw [@next_of_fault_eq_none (here.endLines returnFeed) whole]
  exact ⟨_, Prod.ext sameResult rfl, sameBehind⟩

/-- Both texts are read to their ends, or to the same error. -/
theorem readAll_endLines {bound other : Nat} (enough : here.rest.length < bound)
    (otherEnough : (here.endLines returnFeed).rest.length < other) (whole : here.fault = none)
    (noReturn : '\r' ∉ here.rest)
    (inLine : ∀ result ∈ (readAll false bound here).1,
      InLine (readAll false bound here).2 result) :
    (readAll false other (here.endLines returnFeed)).1 = (readAll false bound here).1 := by
  induction bound generalizing here other with
  | zero => omega
  | succ bound ih =>
    cases other with
    | zero => omega
    | succ other =>
      rcases read : next here with ⟨result, behind⟩
      unfold readAll at inLine ⊢
      rw [read] at inLine ⊢
      cases result with
      | error e =>
        obtain ⟨otherBehind, otherRead, -⟩ :=
          next_endLines whole noReturn read (inLine _ (by simp))
        rw [otherRead]
        rfl
      | ok token =>
        -- unless this is the last token, less is left of both texts, so the bounds are enough for it
        dsimp only at inLine ⊢
        by_cases isEnd : token.kind = .eof
        · obtain ⟨otherBehind, otherRead, -⟩ :=
            next_endLines whole noReturn read (by simp [InLine, isEnd])
          simp [otherRead, isEnd]
        · rw [if_neg isEnd] at inLine ⊢
          obtain ⟨otherBehind, otherRead, goesOn⟩ := next_endLines whole noReturn read
            (inLine (.ok token) (by simp))
          obtain rfl := goesOn token rfl
          have fewer := ((next_readFrom read).past.resolve_left isEnd).2
          have otherFewer := ((next_readFrom otherRead).past.resolve_left isEnd).2
          obtain ⟨isSuffix, stillWhole⟩ := next_behind whole read
          have left := @ih behind other (by omega) (by omega) stillWhole
            (fun among => noReturn (isSuffix.subset among))
            (fun result among => inLine result (by simp [among]))
          simp [otherRead, isEnd, left]

/-- The text with a carriage return and a line feed in the place of every line feed. -/
def withReturns (text : String) : String := String.ofList (endLines returnFeed text.toList)

/-- No literal of the text goes on over a line end, whether it is closed or not. -/
def LiteralsInLine (text : String) : Prop :=
  let (results, behind) := (Cursor.ofString text).tokens false
  ∀ result ∈ results, InLine behind result

instance (text : String) : Decidable (LiteralsInLine text) :=
  inferInstanceAs (Decidable (∀ result ∈ ((Cursor.ofString text).tokens false).1,
    InLine ((Cursor.ofString text).tokens false).2 result))

/-- A carriage return in front of every line feed changes neither a token nor the error that the
text breaks off with. -/
theorem tokens_withReturns {text : String} (noReturn : '\r' ∉ text.toList)
    (inLine : LiteralsInLine text) :
    ((Cursor.ofString (withReturns text)).tokens false).1 =
      ((Cursor.ofString text).tokens false).1 := by
  have isOther : Cursor.ofString (withReturns text) = (Cursor.ofString text).endLines returnFeed := by
    simp [Cursor.ofString, Cursor.ofText, withReturns, Cursor.endLines]
  rw [isOther]
  exact readAll_endLines (Nat.lt_succ_self _) (Nat.lt_succ_self _) rfl noReturn inLine

/-- Entries, a comment, a line that goes on, literals, and an error in the last line. -/
theorem tokens_withReturns_entries :
    ((Cursor.ofString (withReturns "a: 1.5 # one\nb: 'x' + \\\n  `y`\nc: 0x1g\n")).tokens false).1 =
      ((Cursor.ofString "a: 1.5 # one\nb: 'x' + \\\n  `y`\nc: 0x1g\n").tokens false).1 :=
  tokens_withReturns (by decide) (by decide +kernel)

end LazyConfig.Token
