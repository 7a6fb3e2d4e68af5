import LazyConfig.Proofs.Text.Escape
import LazyConfig.Proofs.Token.Legible

/-!
# Literals and the texts between their delimiters

A text in any spelling, between single quotes, double quotes or backticks, is read as one literal
with this text for its value, and reading goes on behind it. Between triples of quotes the same
holds of a text whose backslashes and quotes are written behind backslashes, unless it ends in a
backslash: quotes that follow a backslash close no triple, even if the backslash is hidden by
another one.
-/

namespace LazyConfig.Token

open Text (Escape Spelt isHexDigit shortEscapes numericEscapes unescape isBlank)

/-! ### Literals and delimiters -/

/-- The marks that stand on either side of a literal. -/
inductive Delimiter where
  | single | double | backtick
deriving DecidableEq

namespace Delimiter

def mark : Delimiter → Char
  | single => '\''
  | double => '"'
  | backtick => '`'

/-- The kind of the literals between two of the marks. -/
def kind : Delimiter → Kind
  | single | double => .string
  | backtick => .backTick

end Delimiter

/-- The next token is a literal with the given characters and value, and the rest is left to
read. -/
def ReadsLiteral (here : Cursor) (kind : Kind) (written text rest : List Char) : Prop :=
  ∃ token, next here = (.ok token, here.skip written.length) ∧
    (here.skip written.length).rest = rest ∧ token.kind = kind ∧
    token.text = String.ofList written ∧ token.value.text? = some (String.ofList text)

variable {quote mark c : Char} {body rest more digits written text : List Char}
  {kind : Kind} {here : Cursor}

/-- A literal is read where its lexeme is. -/
theorem readsLiteral_iff (whole : here.fault = none) (isRest : here.rest = c :: more)
    (plain : IsPlain c) (notBlank : ¬isBlank c = true) (same : c :: more = written ++ rest) :
    ReadsLiteral here kind written text rest ↔
      ∃ found, lexeme c more = .ok found ∧ found.kind = kind ∧ found.length = written.length ∧
        found.value.text? = some (String.ofList text) := by
  constructor
  · rintro ⟨token, isNext, -, isKind, -, isValue⟩
    cases read : lexeme c more with
    | error misread =>
      rw [next_of_fault_eq_none whole, isRest, nextFrom_solid _ _ plain notBlank] at isNext
      simp [solid, read] at isNext
    | ok found =>
      obtain ⟨other, isOther, made⟩ := next_of_lexeme whole isRest plain notBlank read
      obtain ⟨rfl, sameEnd⟩ :
          other = token ∧ here.skip found.length = here.skip written.length := by
        simpa using isOther.symm.trans isNext
      -- both ends lie inside the text, so that they are the same
      have fits := (lexeme_within read).fits
      have lengths := congrArg (fun behind : Cursor => behind.rest.length) sameEnd
      have total := congrArg List.length same
      simp only [Cursor.skip, isRest, List.length_drop, List.length_cons, List.length_append]
        at lengths total
      exact ⟨found, rfl, made.kind ▸ isKind, by omega, made.value ▸ isValue⟩
  · rintro ⟨found, read, isKind, isLength, isValue⟩
    obtain ⟨token, isNext, made⟩ := next_of_lexeme whole isRest plain notBlank read
    rw [isLength] at isNext
    refine ⟨token, isNext, ?_, made.kind.trans isKind, ?_, made.value ▸ isValue⟩
    · rw [Cursor.skip, isRest, same]
      exact List.drop_left
    · rw [made.text, same, isLength, List.take_left' rfl]

/-- The lexeme of a literal whose delimiters have the given width. -/
theorem exists_lexeme_between {opening closing : List Char} {width : Nat}
    (opened : opening.length = width) (closed : closing.length = width)
    (isText : unescape body = .ok text) :
    ∃ found, Quotation.lexeme kind width (opening ++ body ++ closing) = .ok found ∧
      found.kind = kind ∧ found.length = (opening ++ body ++ closing).length ∧
      found.value.text? = some (String.ofList text) := by
  have isBody : ((opening ++ body ++ closing).drop width).take
      ((opening ++ body ++ closing).length - 2 * width) = body := by
    rw [List.append_assoc, List.drop_left' opened]
    apply List.take_left'
    simp only [List.length_append, opened, closed]
    omega
  unfold Quotation.lexeme
  simp only [isBody, isText]
  refine ⟨_, rfl, rfl, rfl, ?_⟩
  dsimp only
  split <;> rfl

/-! ### Where spelt texts are closed -/

namespace Quotation

theorem close?_goes_on {triple : Bool} {seen : List Char} (other : c ≠ quote) (rest : List Char) :
    close? quote triple seen false (c :: rest) =
      close? quote triple (c :: seen) (c = '\\') rest := by
  rw [close?]
  simp [other]

/-- A character behind a backslash closes nothing and hides nothing. -/
theorem close?_hidden {triple : Bool} {seen : List Char} (c : Char) (rest : List Char) :
    close? quote triple seen true (c :: rest) = close? quote triple (c :: seen) false rest := by
  rw [close?]
  simp

theorem close?_digits {triple : Bool} {seen : List Char} (isQuote : quote = '\'' ∨ quote = '"')
    (allHex : digits.all isHexDigit) (rest : List Char) :
    close? quote triple seen false (digits ++ rest) =
      close? quote triple (digits.reverse ++ seen) false rest := by
  induction digits generalizing seen with
  | nil => rfl
  | cons digit digits ih =>
    obtain ⟨isHex, others⟩ := Bool.and_eq_true_iff.mp allHex
    -- neither the quote nor the backslash is a digit
    have apart (d : Char) (noDigit : isHexDigit d = false) : digit ≠ d := by
      rintro rfl
      rw [noDigit] at isHex
      cases isHex
    have noQuote : digit ≠ quote := by
      apply apart
      rcases isQuote with rfl | rfl <;> decide
    have noBackslash : digit ≠ '\\' := apart _ (by decide)
    rw [List.cons_append, close?_goes_on noQuote, decide_eq_false noBackslash, ih others,
      List.reverse_cons, List.append_assoc, List.singleton_append]

/-- A spelt text is read to its end, because its quotes stand behind backslashes. -/
theorem close?_of_spelt {triple : Bool} {seen : List Char} (isQuote : quote = '\'' ∨ quote = '"')
    (spelt : Spelt (fun c => c ≠ '\\' ∧ c ≠ quote) Escape written text) (rest : List Char) :
    close? quote triple seen false (written ++ rest) =
      close? quote triple (written.reverse ++ seen) false rest := by
  have noBackslash : '\\' ≠ quote := by rcases isQuote with rfl | rfl <;> decide
  induction spelt generalizing seen with
  | nil => rfl
  | plain isPlain _ ih =>
    rw [List.cons_append, close?_goes_on isPlain.2, decide_eq_false isPlain.1, ih,
      List.reverse_cons, List.append_assoc, List.singleton_append]
  | escape isEscape _ ih =>
    -- the backslash hides one character, and the digits behind it need not be hidden
    obtain ⟨mark, digits, rfl, allHex⟩ := isEscape.exists_digits
    rw [List.cons_append, close?_goes_on noBackslash, decide_eq_true rfl, List.cons_append,
      List.cons_append, close?_hidden, List.append_assoc, close?_digits isQuote allHex, ih]
    simp

/-- A closed literal is longer than what has been seen of it before. -/
theorem close?_longer {triple escaped : Bool} {seen found : List Char}
    (closed : close? quote triple seen escaped rest = some found) : seen.length < found.length := by
  obtain ⟨taken, left, -, rfl, same⟩ := close?_taken closed
  have some : taken ≠ [] := by
    rintro rfl
    cases same []
  have longer := List.length_pos_iff.mpr some
  rw [List.length_append, List.length_reverse]
  omega

end Quotation

/-! ### Single delimiters -/

theorem string_of_spelt (isQuote : quote = '\'' ∨ quote = '"')
    (spelt : Spelt (fun c => c ≠ '\\' ∧ c ≠ quote) Escape written text)
    (apart : text = [] → rest.head? ≠ some quote) :
    Quotation.string quote (written ++ quote :: rest) =
      Quotation.lexeme .string 1 ([quote] ++ written ++ [quote]) := by
  -- two more quotes would open a triple: the first is no part of the text, which is empty then,
  -- and the second is excluded
  have noTriple : ¬(written ++ quote :: rest).take 2 = [quote, quote] := by
    intro triple
    cases spelt with
    | nil =>
      cases rest with
      | nil => simp at triple
      | cons next rest => simp_all
    | plain isPlain =>
      obtain ⟨same, -⟩ := List.cons.inj triple
      exact isPlain.2 same
    | escape =>
      obtain ⟨same, -⟩ := List.cons.inj triple
      rcases isQuote with rfl | rfl <;> cases same
  unfold Quotation.string
  simp only [noTriple, if_false, decide_false, List.replicate_one, Nat.sub_self, List.drop_zero,
    Quotation.close?_of_spelt isQuote spelt]
  simp [Quotation.close?]

/-- No escape is written with a backtick. -/
theorem backtick_not_mem (spelt : Spelt (fun c => c ≠ '\\' ∧ c ≠ '`') Escape written text) :
    '`' ∉ written := by
  induction spelt with
  | nil => exact List.not_mem_nil
  | plain isPlain _ ih => simp [Ne.symm isPlain.2, ih]
  | @escape body c _ _ isEscape _ ih =>
    have noBacktick : '`' ∉ body := by
      cases isEscape with
      | short listed =>
        have all : ∀ entry ∈ shortEscapes, entry.1 ≠ '`' := by decide
        simpa using Ne.symm (all _ listed)
      | @numeric mark _ digits listed writes =>
        have all : ∀ entry ∈ numericEscapes, entry.1 ≠ '`' := by decide
        have allHex := List.all_eq_true.mp (Text.writesHex_iff.mp writes).1
        have noDigit : '`' ∉ digits := fun among => absurd (allHex _ among) (by decide)
        simpa [noDigit] using Ne.symm (all _ listed)
    simp [noBacktick, ih]

/-- Every text can stand between each of the delimiters. -/
theorem Delimiter.exists_spelt (d : Delimiter) (text : List Char) :
    ∃ written, Spelt (fun c => c ≠ '\\' ∧ c ≠ d.mark) Escape written text := by
  have backslash : Escape ['\\'] '\\' := .short (by decide)
  have isMark : ∃ body, Escape body d.mark := by
    cases d with
    | single => exact ⟨['\''], .short (by decide)⟩
    | double => exact ⟨['"'], .short (by decide)⟩
    | backtick => exact ⟨['x', '6', '0'], .numeric (by decide) (Text.writesHex_iff.mpr (by decide))⟩
  apply Text.exists_spelt
  intro c
  by_cases isBackslash : c = '\\'
  · exact .inr ⟨_, isBackslash ▸ backslash⟩
  by_cases same : c = d.mark
  · exact .inr (same ▸ isMark)
  · exact .inl ⟨isBackslash, same⟩

/-- A text in any spelling is read from between its delimiters. -/
theorem literal_read_back (d : Delimiter)
    (spelt : Spelt (fun c => c ≠ '\\' ∧ c ≠ d.mark) Escape written text)
    (apart : d.kind = .string → text = [] → rest.head? ≠ some d.mark) (whole : here.fault = none)
    (isRest : here.rest = d.mark :: (written ++ d.mark :: rest)) :
    ReadsLiteral here d.kind ([d.mark] ++ written ++ [d.mark]) text rest := by
  have plain : IsPlain d.mark := by
    cases d <;> exact ⟨by decide, by decide, by decide, by decide⟩
  have notBlank : ¬isBlank d.mark = true := by
    cases d <;> decide +kernel
  have read : lexeme d.mark (written ++ d.mark :: rest) =
      Quotation.lexeme d.kind 1 ([d.mark] ++ written ++ [d.mark]) := by
    cases d with
    | single =>
      rw [Delimiter.mark, lexeme_of_quote (.inl rfl)]
      exact string_of_spelt (.inl rfl) spelt (apart rfl)
    | double =>
      rw [Delimiter.mark, lexeme_of_quote (.inr rfl)]
      exact string_of_spelt (.inr rfl) spelt (apart rfl)
    | backtick =>
      rw [Delimiter.mark, lexeme_of_backtick]
      exact Quotation.backtick_closed (backtick_not_mem spelt) rest
  have isText := Text.unescape_of_spelt spelt fun _ isPlain => isPlain.1
  rw [readsLiteral_iff whole isRest plain notBlank (by simp), read]
  exact exists_lexeme_between rfl rfl isText

/-- A quote, an escaped quote and a character in digits, with a bracket behind the literal. -/
theorem literal_read_back_quotes :
    ReadsLiteral { rest := ['"', '\'', '\\', '"', '\\', 'x', '4', 'F', '"', ']'] } .string
      ['"', '\'', '\\', '"', '\\', 'x', '4', 'F', '"'] ['\'', '"', 'O'] [']'] := by
  have isQuote : Escape ['"'] '"' := .short (by decide)
  have isLetter : Escape ['x', '4', 'F'] 'O' :=
    .numeric (by decide) (Text.writesHex_iff.mpr (by decide +kernel))
  have spelt : Spelt (fun c => c ≠ '\\' ∧ c ≠ '"') Escape
      ['\'', '\\', '"', '\\', 'x', '4', 'F'] ['\'', '"', 'O'] :=
    .plain (by decide) (.escape isQuote (.escape isLetter .nil))
  exact literal_read_back .double spelt (by simp) rfl rfl

/-! ### Triples of quotes -/

/-- What stands for a backslash or a quote behind a backslash is the character itself. -/
inductive Masked : List Char → Char → Prop
  | mk {c : Char} (isMasked : c = '\\' ∨ c = '\'' ∨ c = '"') : Masked [c] c

theorem Masked.isEscape (masked : Masked body c) : Escape body c := by
  obtain ⟨rfl | rfl | rfl⟩ := masked <;> exact .short (by decide)

theorem exists_masked (isQuote : quote = '\'' ∨ quote = '"') (text : List Char) :
    ∃ written, Spelt (fun c => c ≠ '\\' ∧ c ≠ quote) Masked written text := by
  apply Text.exists_spelt
  intro c
  by_cases isBackslash : c = '\\'
  · exact .inr ⟨[c], .mk (.inl isBackslash)⟩
  by_cases same : c = quote
  · exact .inr ⟨[c], .mk (.inr (same ▸ isQuote))⟩
  · exact .inl ⟨isBackslash, same⟩

/-- The characters of a text end the characters that it is written with. -/
theorem getLast?_of_masked {plain : Char → Prop} (spelt : Spelt plain Masked written text) :
    written.getLast? = text.getLast? := by
  induction spelt with
  | nil => rfl
  | plain _ _ ih => rw [List.getLast?_cons, List.getLast?_cons, ih]
  | escape masked _ ih =>
    cases masked
    rw [List.singleton_append, List.getLast?_cons_cons, List.getLast?_cons, List.getLast?_cons, ih]

/-- A quote at the end stands behind a backslash. -/
theorem getLast?_of_masked_quote {plain : Char → Prop} (spelt : Spelt plain Masked written text)
    (noQuote : ¬plain quote) {front : List Char} (isLast : written = front ++ [quote]) :
    front.getLast? = some '\\' := by
  induction spelt generalizing front with
  | nil => simp at isLast
  | @plain c written _ isPlain _ ih =>
    cases front with
    | nil =>
      obtain ⟨rfl, -⟩ := List.cons.inj isLast
      exact absurd isPlain noQuote
    | cons first front =>
      obtain ⟨-, isLastLeft⟩ := List.cons.inj isLast
      rw [List.getLast?_cons, ih isLastLeft, Option.getD_some]
  | @escape body c written _ masked _ ih =>
    cases masked
    -- the quote is the hidden character itself, or it comes later
    match front with
    | [] => simp at isLast
    | [first] =>
      obtain ⟨rfl, -⟩ := List.cons.inj isLast
      rfl
    | first :: second :: front =>
      obtain ⟨-, isLastLeft⟩ := List.cons.inj (List.cons.inj isLast).2
      rw [List.getLast?_cons_cons, List.getLast?_cons, ih isLastLeft, Option.getD_some]

namespace Quotation

variable {seen : List Char}

theorem close?_quote (noBackslash : quote ≠ '\\') (rest : List Char) :
    close? quote true seen false (quote :: rest) =
      if closesTriple quote (quote :: seen) then some (quote :: seen)
      else close? quote true (quote :: seen) false rest := by
  rw [close?]
  simp [noBackslash]

theorem closesTriple_eq_false {a b : Char} (others : b ≠ quote ∨ c ≠ quote) (rest : List Char) :
    closesTriple quote (a :: b :: c :: rest) = false := by
  cases rest with
  | nil => rfl
  | cons => rcases others with other | other <;> simp [closesTriple, other]

/-- Quotes behind a literal close it when there are three of them, unless a backslash stands in
front of them. The last quote of the literal itself is hidden by a backslash. -/
theorem close?_triple {before : List Char} (noBackslash : quote ≠ '\\')
    (hidden : ∀ others, before = quote :: others → others.head? = some '\\') (rest : List Char) :
    close? quote true (before ++ [quote, quote, quote]) false (quote :: quote :: quote :: rest) =
      if before.head? = some '\\' then
        close? quote true (quote :: quote :: quote :: (before ++ [quote, quote, quote])) false rest
      else some (quote :: quote :: quote :: (before ++ [quote, quote, quote])) := by
  -- the character in front of the quotes is none of them, or there is a backslash in front of it
  have apart : ∀ x others, before = x :: others → x ≠ quote ∨ ∃ left, others = '\\' :: left := by
    intro x others same
    by_cases isQuote : x = quote
    · subst isQuote
      obtain ⟨left, isLeft⟩ := List.head?_eq_some_iff.mp (hidden others same)
      exact .inr ⟨left, isLeft⟩
    · exact .inl isQuote
  -- so the first two quotes make no triple with what is before them, and the third one does
  have first : closesTriple quote (quote :: (before ++ [quote, quote, quote])) = false := by
    cases before with
    | nil => simp [closesTriple]
    | cons x others =>
      rcases apart x others rfl with other | ⟨left, rfl⟩
      · cases others <;> exact closesTriple_eq_false (.inl other) _
      · exact closesTriple_eq_false (.inr (Ne.symm noBackslash)) _
  have second :
      closesTriple quote (quote :: quote :: (before ++ [quote, quote, quote])) = false := by
    cases before with
    | nil => simp [closesTriple]
    | cons x others =>
      rcases apart x others rfl with other | ⟨left, rfl⟩
      · exact closesTriple_eq_false (.inr other) _
      · simp [closesTriple]
  have third : closesTriple quote (quote :: quote :: quote :: (before ++ [quote, quote, quote])) =
      decide (before.head? ≠ some '\\') := by
    cases before with
    | nil => simp [closesTriple, noBackslash]
    | cons x others => simp [closesTriple]
  rw [close?_quote noBackslash, first, close?_quote noBackslash, second,
    close?_quote noBackslash, third]
  simp

/-- What follows a triple of quotes is searched for the triple that closes the literal. -/
theorem string_of_close? {found : List Char}
    (closed : close? quote true [quote, quote, quote] false rest = some found) :
    string quote (quote :: quote :: rest) = lexeme .string 3 found.reverse := by
  unfold string
  simp [List.replicate, closed]

theorem exists_close?_of_string {found : Lexeme}
    (read : string quote (quote :: quote :: rest) = .ok found) :
    ∃ seen, close? quote true [quote, quote, quote] false rest = some seen ∧
      found.length = seen.length := by
  cases closed : close? quote true [quote, quote, quote] false rest with
  | some seen =>
    rw [string_of_close? closed] at read
    exact ⟨seen, rfl, by rw [lexeme_length read, List.length_reverse]⟩
  | none =>
    unfold string at read
    simp [List.replicate, closed] at read

/-- The quotes behind a text close it, unless the text ends in a backslash. -/
theorem close?_of_masked (isQuote : quote = '\'' ∨ quote = '"')
    (spelt : Spelt (fun c => c ≠ '\\' ∧ c ≠ quote) Masked written text) (rest : List Char) :
    close? quote true [quote, quote, quote] false (written ++ quote :: quote :: quote :: rest) =
      let seen := quote :: quote :: quote :: (written.reverse ++ [quote, quote, quote])
      if text.getLast? = some '\\' then close? quote true seen false rest else some seen := by
  have noBackslash : quote ≠ '\\' := by rcases isQuote with rfl | rfl <;> decide
  have hidden (others : List Char) (isLast : written.reverse = quote :: others) :
      others.head? = some '\\' := by
    have isLast : written = others.reverse ++ [quote] := by
      rw [← List.reverse_cons, ← isLast, List.reverse_reverse]
    have front := getLast?_of_masked_quote spelt (fun isPlain => isPlain.2 rfl) isLast
    rwa [List.getLast?_reverse] at front
  have escapes := spelt.mono (fun _ isPlain => isPlain) fun _ _ masked => masked.isEscape
  rw [close?_of_spelt isQuote escapes, close?_triple noBackslash hidden, List.head?_reverse,
    getLast?_of_masked spelt]

end Quotation

/-- Between triples of quotes a text is read back, whose backslashes and quotes stand behind
backslashes, exactly if it does not end in a backslash. -/
theorem triple_read_back_iff (isQuote : quote = '\'' ∨ quote = '"')
    (spelt : Spelt (fun c => c ≠ '\\' ∧ c ≠ quote) Masked written text)
    (whole : here.fault = none)
    (isRest : here.rest =
      [quote, quote, quote] ++ written ++ [quote, quote, quote] ++ rest) :
    ReadsLiteral here .string ([quote, quote, quote] ++ written ++ [quote, quote, quote])
        text rest ↔
      text.getLast? ≠ some '\\' := by
  have plain : IsPlain quote := by
    rcases isQuote with rfl | rfl <;> exact ⟨by decide, by decide, by decide, by decide⟩
  have notBlank : ¬isBlank quote = true := by
    rcases isQuote with rfl | rfl <;> decide +kernel
  have escapes := spelt.mono (fun _ isPlain => isPlain) fun _ _ masked => masked.isEscape
  have isText := Text.unescape_of_spelt escapes fun _ isPlain => isPlain.1
  have isOpen : here.rest =
      quote :: quote :: quote :: (written ++ quote :: quote :: quote :: rest) := by
    rw [isRest]
    simp
  have closing := Quotation.close?_of_masked isQuote spelt rest
  rw [readsLiteral_iff whole isOpen plain notBlank (by simp), lexeme_of_quote isQuote]
  constructor
  · rintro ⟨found, read, -, isLength, -⟩ ends
    -- with a backslash in front of them the three quotes are part of a longer literal
    obtain ⟨seen, closed, sameLength⟩ := Quotation.exists_close?_of_string read
    rw [closing] at closed
    have longer := Quotation.close?_longer ((if_pos ends).symm.trans closed)
    simp only [List.length_cons, List.length_append, List.length_reverse, List.length_nil]
      at longer isLength
    omega
  · intro notBackslash
    have whole : (quote :: quote :: quote :: (written.reverse ++ [quote, quote, quote])).reverse =
        [quote, quote, quote] ++ written ++ [quote, quote, quote] := by simp
    rw [Quotation.string_of_close? (closing.trans (if_neg notBackslash)), whole]
    exact exists_lexeme_between rfl rfl isText

/-- A text of a backslash and both quotes, with a quote of the other kind behind the literal. -/
theorem triple_read_back_iff_quotes :
    ReadsLiteral
      { rest :=
          ['\'', '\'', '\'', '\\', '\\', '\\', '"', '\\', '\'', '\'', '\'', '\'', '"'] }
      .string
      ['\'', '\'', '\'', '\\', '\\', '\\', '"', '\\', '\'', '\'', '\'', '\'']
      ['\\', '"', '\''] ['"'] := by
  have backslash : Masked ['\\'] '\\' := .mk (.inl rfl)
  have double : Masked ['"'] '"' := .mk (.inr (.inr rfl))
  have single : Masked ['\''] '\'' := .mk (.inr (.inl rfl))
  have spelt : Spelt (fun c => c ≠ '\\' ∧ c ≠ '\'') Masked ['\\', '\\', '\\', '"', '\\', '\'']
      ['\\', '"', '\''] := .escape backslash (.escape double (.escape single .nil))
  exact (triple_read_back_iff (.inl rfl) spelt rfl rfl).mpr (by decide)

/-- The quotes behind a text that is a single backslash do not close it. -/
theorem backslash_keeps_triple_open :
    ¬∀ (quote : Char) (written text rest : List Char) (here : Cursor), quote = '\'' ∨ quote = '"' →
      Spelt (fun c => c ≠ '\\' ∧ c ≠ quote) Masked written text → here.fault = none →
      here.rest = [quote, quote, quote] ++ written ++ [quote, quote, quote] ++ rest →
      ReadsLiteral here .string ([quote, quote, quote] ++ written ++ [quote, quote, quote])
        text rest := by
  intro law
  have backslash : Masked ['\\'] '\\' := .mk (.inl rfl)
  have spelt : Spelt (fun c => c ≠ '\\' ∧ c ≠ '\'') Masked ['\\', '\\'] ['\\'] :=
    .escape backslash .nil
  obtain ⟨token, isNext, -⟩ :=
    law '\'' ['\\', '\\'] ['\\'] [] { rest := ['\'', '\'', '\'', '\\', '\\', '\'', '\'', '\''] }
      (.inl rfl) spelt rfl rfl
  -- the quotes behind the backslashes are taken for a part of the text, which then does not end
  have failed :
      (next { rest := ['\'', '\'', '\'', '\\', '\\', '\'', '\'', '\''] }).1.isOk = false := by
    decide +kernel
  rw [isNext] at failed
  cases failed

end LazyConfig.Token
