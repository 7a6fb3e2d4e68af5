import LazyConfig.Proofs.Syntax.TokenOrder

/-!
# How far a token reaches

A token takes no more characters than are left of the text, and an error is noticed behind one of
them.
-/

namespace LazyConfig

namespace Token

/-! ### Tokens take no more than the text has -/

/-- A token that takes at most so many characters, and is not the end of the text. -/
structure Lexeme.Within (found : Lexeme) (length : Nat) : Prop where
  fits : found.length ≤ length
  inner : found.kind ≠ .eof

/-- Every character is part of the literal or left behind it. -/
theorem Numeral.Scan.run_length {s longer : Numeral.Scan} {text rest : List Char}
    (ran : s.run text = .ok (longer, rest)) :
    longer.text.length + rest.length = s.text.length + text.length := by
  induction text generalizing s with
  | nil =>
    obtain ⟨rfl, rfl⟩ := by simpa [Numeral.Scan.run] using ran
    rfl
  | cons c text ih =>
    unfold Numeral.Scan.run at ran
    split at ran
    case h_1 next extended =>
      have grown : next.text.length = s.text.length + 1 := by
        unfold Numeral.Scan.step at extended
        split_ifs at extended <;> simp at extended <;> subst extended <;>
          simp [Numeral.Scan.push]
      rw [ih ran, grown, List.length_cons]
      omega
    case h_2 =>
      obtain ⟨rfl, rfl⟩ := by simpa using ran
      rfl
    case h_3 => simp at ran

theorem Numeral.Scan.close_kind {s : Numeral.Scan} {mark : List Char} {found : Lexeme}
    (closed : s.close mark = .ok found) : found.kind ∈ [Kind.integer, .float, .complex] := by
  unfold Numeral.Scan.close at closed
  split at closed
  case h_1 kind value isValue =>
    cases closed
    unfold Numeral.Scan.value? at isValue
    split_ifs at isValue <;> simp only [Option.map_eq_some_iff, Prod.mk.injEq] at isValue <;>
      obtain ⟨_, _, rfl, _⟩ := isValue <;> simp
  case h_2 => cases closed

theorem Numeral.Scan.finish_kind {s : Numeral.Scan} {rest : List Char} {found : Lexeme}
    (finished : s.finish rest = .ok found) : found.kind ∈ [Kind.integer, .float, .complex] := by
  unfold Numeral.Scan.finish at finished
  split at finished
  · cases finished
  · split at finished
    · exact close_kind finished
    · split_ifs at finished
      · exact close_kind finished
      · exact close_kind finished

theorem Numeral.read_kind {opening rest : List Char} {found : Lexeme}
    (done : Numeral.read opening rest = .ok found) :
    found.kind ∈ [Kind.integer, .float, .complex] := by
  unfold Numeral.read at done
  cases ran : Numeral.Scan.run { text := opening, afterDigit := opening.head?.any Text.isDigit }
      rest with
  | error misread => simp [ran, bind, Except.bind] at done
  | ok result =>
    simp only [ran, bind, Except.bind] at done
    exact Numeral.Scan.finish_kind done

theorem Numeral.Scan.finish_within {s : Numeral.Scan} {rest : List Char} {found : Lexeme}
    (finished : s.finish rest = .ok found) : found.Within (s.text.length + rest.length) := by
  have notEnd : found.kind ≠ .eof := ne_of_mem_of_not_mem (finish_kind finished) (by decide)
  have alone {rest : List Char} (closed : s.close [] = .ok found) :
      found.Within (s.text.length + rest.length) :=
    ⟨(close_length closed).trans_le (by simp), notEnd⟩
  unfold Numeral.Scan.finish at finished
  split at finished
  · cases finished
  · split at finished
    · exact alone finished
    case h_2 c rest =>
      split_ifs at finished
      · exact ⟨(close_length finished).trans_le (by simp), notEnd⟩
      · exact alone finished

theorem Numeral.read_within {opening rest : List Char} {found : Lexeme}
    (done : Numeral.read opening rest = .ok found) :
    found.Within (opening.length + rest.length) := by
  unfold Numeral.read at done
  cases ran : Numeral.Scan.run { text := opening, afterDigit := opening.head?.any Text.isDigit }
      rest with
  | error misread => simp [ran, bind, Except.bind] at done
  | ok result =>
    obtain ⟨longer, behind⟩ := result
    simp only [ran, bind, Except.bind] at done
    have within := Numeral.Scan.finish_within done
    rwa [Numeral.Scan.run_length ran] at within

theorem Quotation.lexeme_kind {kind : Kind} {width : Nat} {text : List Char} {found : Lexeme}
    (read : Quotation.lexeme kind width text = .ok found) : found.kind = kind := by
  unfold Quotation.lexeme at read
  dsimp only at read
  split at read <;> cases read
  rfl

theorem Quotation.hasText_lexeme {kind : Kind} {width : Nat} {text : List Char} {found : Lexeme}
    (read : Quotation.lexeme kind width text = .ok found) : found.value.text?.isSome := by
  unfold Quotation.lexeme at read
  dsimp only at read
  split at read
  · cases read
    dsimp only
    split <;> rfl
  · cases read

theorem Quotation.hasText_string {quote : Char} {rest : List Char} {found : Lexeme}
    (read : Quotation.string quote rest = .ok found) : found.value.text?.isSome := by
  unfold Quotation.string at read
  dsimp only at read
  split at read
  · exact hasText_lexeme read
  · cases read

theorem Quotation.string_kind {quote : Char} {rest : List Char} {found : Lexeme}
    (read : Quotation.string quote rest = .ok found) : found.kind = .string := by
  unfold Quotation.string at read
  dsimp only at read
  split at read
  · exact lexeme_kind read
  · cases read

theorem Quotation.backtick_kind {rest : List Char} {found : Lexeme}
    (read : Quotation.backtick rest = .ok found) : found.kind = .backTick := by
  unfold Quotation.backtick at read
  dsimp only at read
  split at read
  · exact lexeme_kind read
  · cases read

theorem Quotation.close?_fits {quote : Char} {triple escaped : Bool}
    {seen rest text : List Char}
    (closed : Quotation.close? quote triple seen escaped rest = some text) :
    text.length ≤ seen.length + rest.length := by
  induction rest generalizing seen escaped with
  | nil => simp [Quotation.close?] at closed
  | cons c rest ih =>
    unfold Quotation.close? at closed
    dsimp only at closed
    split at closed
    · cases closed
      simp only [List.length_cons]
      omega
    · have shorter := ih closed
      simp only [List.length_cons] at shorter ⊢
      omega

theorem Quotation.string_within {quote : Char} {rest : List Char} {found : Lexeme}
    (read : Quotation.string quote rest = .ok found) : found.Within (rest.length + 1) := by
  unfold Quotation.string at read
  dsimp only at read
  split at read
  case h_1 text closed =>
    have fits := Quotation.close?_fits closed
    have two : rest.take 2 = [quote, quote] → 2 ≤ rest.length := fun triple => by
      have length := congrArg List.length triple
      simp only [List.length_take, List.length_cons, List.length_nil] at length
      omega
    refine ⟨?_, by simp [Quotation.lexeme_kind read]⟩
    rw [Quotation.lexeme_length read, List.length_reverse]
    refine fits.trans ?_
    rw [List.length_replicate, List.length_drop]
    split
    · have long := two (by assumption)
      omega
    · omega
  case h_2 => cases read

theorem Quotation.backtick_within {rest : List Char} {found : Lexeme}
    (read : Quotation.backtick rest = .ok found) : found.Within (rest.length + 1) := by
  unfold Quotation.backtick at read
  dsimp only at read
  split at read
  case isTrue shorter =>
    refine ⟨?_, by simp [Quotation.lexeme_kind read]⟩
    rw [Quotation.lexeme_length read]
    simp only [List.cons_append, List.length_cons, List.length_append, List.length_nil]
    omega
  case isFalse => cases read

/-- A word is a keyword, or its value is its text. -/
theorem word_cases (text : List Char) :
    (word text).kind = .word ∧ (word text).value = .text (String.ofList text) ∨
      ∃ entry ∈ keywords, (word text).kind = entry.2.1 := by
  unfold word
  dsimp only
  split
  -- what is looked up in the table is the kind of one of its entries
  case h_1 kind value isKeyword =>
    obtain ⟨before, behind, isTable, -⟩ := List.lookup_eq_some_iff.mp isKeyword
    exact .inr ⟨(String.ofList text, kind, value), by simp [isTable], rfl⟩
  case h_2 => exact .inl ⟨rfl, rfl⟩

theorem word_kind (text : List Char) :
    (word text).kind ∉ [Kind.eof, .newline, .integer, .float, .complex] := by
  rcases word_cases text with ⟨isWord, -⟩ | ⟨entry, among, isKind⟩
  · rw [isWord]
    decide
  · have all : ∀ entry ∈ keywords,
        entry.2.1 ∉ [Kind.eof, .newline, .integer, .float, .complex] := by decide
    rw [isKind]
    exact all entry among

theorem mark?_kind {c : Char} {kind : Kind} (isMark : mark? c = some kind) :
    kind ∉ [Kind.eof, .newline, .word, .string, .backTick, .integer, .float, .complex] := by
  unfold mark? at isMark
  split at isMark <;> cases isMark <;> decide

theorem doubleMark?_kind {first second : Char} {kind : Kind}
    (isMark : doubleMark? first second = some kind) :
    kind ∉ [Kind.eof, .newline, .word, .string, .backTick, .integer, .float, .complex] := by
  unfold doubleMark? at isMark
  split at isMark <;> cases isMark <;> decide

/-- What stands in a line is read neither as the end of the line nor as that of the text. -/
theorem lexeme_kind {c : Char} {rest : List Char} {found : Lexeme}
    (read : lexeme c rest = .ok found) : found.kind ∉ [Kind.eof, .newline] := by
  have number {opening rest : List Char} (done : Numeral.read opening rest = .ok found) :
      found.kind ∉ [Kind.eof, .newline] := by
    have all : ∀ kind ∈ [Kind.integer, .float, .complex], kind ∉ [Kind.eof, .newline] := by decide
    exact all _ (Numeral.read_kind done)
  unfold lexeme at read
  split at read
  · cases read
    exact fun among => word_kind _ (List.mem_append_left [Kind.integer, .float, .complex] among)
  split at read
  · exact fun among => absurd (Quotation.backtick_kind read ▸ among) (by decide)
  split at read
  · exact fun among => absurd (Quotation.string_kind read ▸ among) (by decide)
  split at read
  · exact number read
  split at read
  · cases read
  case h_2 kind isMark =>
    have one : kind ∉ [Kind.eof, .newline] := fun among =>
      mark?_kind isMark (List.mem_append_left _ among)
    split at read
    · cases read
      exact one
    case h_2 second tail =>
      split at read
      · exact number read
      split at read
      case h_1 double isDouble =>
        cases read
        exact fun among => doubleMark?_kind isDouble (List.mem_append_left _ among)
      case h_2 =>
        cases read
        exact one

/-- A token lies inside the text. -/
theorem lexeme_within {c : Char} {rest : List Char} {found : Lexeme}
    (read : lexeme c rest = .ok found) : found.Within (rest.length + 1) := by
  unfold lexeme at read
  split at read
  · cases read
    have inner : (word (c :: rest.takeWhile Text.isWordChar)).kind ≠ .eof :=
      (ne_of_mem_of_not_mem List.mem_cons_self (word_kind _)).symm
    refine ⟨?_, inner⟩
    rw [word_length, List.length_cons]
    exact Nat.succ_le_succ (List.takeWhile_sublist _).length_le
  split at read
  · exact Quotation.backtick_within read
  split at read
  · exact Quotation.string_within read
  split at read
  · have within := Numeral.read_within read
    rwa [List.length_singleton, Nat.add_comm] at within
  split at read
  · cases read
  case h_2 kind isMark =>
    have notEnd : kind ≠ .eof :=
      (ne_of_mem_of_not_mem List.mem_cons_self (mark?_kind isMark)).symm
    split at read
    · cases read
      exact ⟨Nat.le_refl 1, notEnd⟩
    case h_2 second tail =>
      split at read
      · have within := Numeral.read_within read
        rwa [show [second, c].length + tail.length = (second :: tail).length + 1 by
          simp only [List.length_cons, List.length_nil]; omega] at within
      split at read
      case h_1 double isDouble =>
        cases read
        exact ⟨by simp, (ne_of_mem_of_not_mem List.mem_cons_self (doubleMark?_kind isDouble)).symm⟩
      case h_2 =>
        cases read
        exact ⟨by simp, notEnd⟩

/-! ### Errors of tokens -/

/-- An error in a token is noticed behind a character, and is not about bytes. -/
structure Misread.Inside (misread : Misread) : Prop where
  some : 0 < misread.length
  decoded : ∀ bytes, misread.fault ≠ .undecodable bytes

theorem Numeral.Scan.run_misread {s : Numeral.Scan} {text : List Char} {misread : Misread}
    (failed : s.run text = .error misread) : misread.Inside := by
  induction text generalizing s with
  | nil => simp [Numeral.Scan.run] at failed
  | cons c text ih =>
    unfold Numeral.Scan.run at failed
    split at failed
    · exact ih failed
    · cases failed
    · cases failed
      exact ⟨Nat.succ_pos _, by simp⟩

theorem Numeral.Scan.finish_misread {s : Numeral.Scan} {rest : List Char} {misread : Misread}
    (some : 0 < s.text.length) (failed : s.finish rest = .error misread) : misread.Inside := by
  have unclosed {mark : List Char} (failed : s.close mark = .error misread) : misread.Inside := by
    unfold Numeral.Scan.close at failed
    split at failed <;> cases failed
    exact ⟨Nat.add_pos_left some _, by simp⟩
  unfold Numeral.Scan.finish at failed
  split at failed
  · cases failed
    exact ⟨Nat.add_pos_left some _, by simp⟩
  · split at failed
    · exact unclosed failed
    · split_ifs at failed
      · exact unclosed failed
      · cases failed
        exact ⟨Nat.succ_pos _, by simp⟩
      · exact unclosed failed

theorem Numeral.read_misread {opening rest : List Char} {misread : Misread}
    (some : opening ≠ []) (failed : Numeral.read opening rest = .error misread) :
    misread.Inside := by
  unfold Numeral.read at failed
  cases ran : Numeral.Scan.run { text := opening, afterDigit := opening.head?.any Text.isDigit }
      rest with
  | error other =>
    simp only [ran, bind, Except.bind] at failed
    cases failed
    exact Numeral.Scan.run_misread ran
  | ok result =>
    obtain ⟨longer, behind⟩ := result
    simp only [ran, bind, Except.bind] at failed
    refine Numeral.Scan.finish_misread ?_ failed
    exact (List.length_pos_iff.mpr some).trans_le (Numeral.Scan.run_text ran)

theorem Quotation.lexeme_misread {kind : Kind} {width : Nat} {text : List Char}
    {misread : Misread} (some : text ≠ [])
    (failed : Quotation.lexeme kind width text = .error misread) : misread.Inside := by
  unfold Quotation.lexeme at failed
  dsimp only at failed
  split at failed <;> cases failed
  exact ⟨List.length_pos_iff.mpr some, by simp⟩

theorem Quotation.string_misread {quote : Char} {rest : List Char} {misread : Misread}
    (failed : Quotation.string quote rest = .error misread) : misread.Inside := by
  unfold Quotation.string at failed
  dsimp only at failed
  split at failed
  case h_1 text closed =>
    exact Quotation.lexeme_misread (by simpa using Quotation.close?_length closed) failed
  case h_2 =>
    cases failed
    exact ⟨Nat.succ_pos _, by simp⟩

theorem Quotation.backtick_misread {rest : List Char} {misread : Misread}
    (failed : Quotation.backtick rest = .error misread) : misread.Inside := by
  unfold Quotation.backtick at failed
  dsimp only at failed
  split at failed
  · exact Quotation.lexeme_misread (by simp) failed
  · cases failed
    exact ⟨Nat.succ_pos _, by simp⟩

theorem lexeme_misread {c : Char} {rest : List Char} {misread : Misread}
    (failed : lexeme c rest = .error misread) : misread.Inside := by
  unfold lexeme at failed
  split at failed
  · cases failed
  split at failed
  · exact Quotation.backtick_misread failed
  split at failed
  · exact Quotation.string_misread failed
  split at failed
  · exact Numeral.read_misread (by simp) failed
  split at failed
  · cases failed
    exact ⟨Nat.one_pos, by simp⟩
  split at failed
  · cases failed
  split at failed
  · exact Numeral.read_misread (by simp) failed
  split at failed <;> cases failed

end Token

end LazyConfig
