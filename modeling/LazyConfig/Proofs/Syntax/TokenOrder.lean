import LazyConfig.Token.Stream
import Mathlib.Data.List.Basic
import Mathlib.Data.List.TakeWhile
import Mathlib.Data.Prod.Lex
import Mathlib.Order.Basic

/-!
# The order of tokens

Every token of a text but the end token starts before the next one. A stream keeps this order while
it is read.
-/

namespace LazyConfig

/-! ### Locations -/

namespace Location

instance : LinearOrder Location :=
  LinearOrder.lift' (fun l => toLex (l.line, l.column)) fun a b same => by
    cases a
    cases b
    simpa using same

theorem lt_iff {a b : Location} :
    a < b ↔ a.line < b.line ∨ a.line = b.line ∧ a.column < b.column :=
  Prod.Lex.toLex_lt_toLex

theorem lt_after (l : Location) (c : Char) : l < l.after c := by
  rw [lt_iff]
  unfold after nextLine
  split
  · left
    simp
  · right
    simp

theorem le_advance (l : Location) (text : List Char) : l ≤ l.advance text := by
  induction text generalizing l with
  | nil => exact le_rfl
  | cons c rest ih => exact (lt_after l c).le.trans (ih (l.after c))

theorem lt_advance {text : List Char} (l : Location) (some : text ≠ []) : l < l.advance text := by
  cases text with
  | nil => exact absurd rfl some
  | cons c rest => exact (lt_after l c).trans_le (le_advance (l.after c) rest)

/-- The last character of a text stands in front of what follows the text. -/
theorem lastOf_lt {text : List Char} (l : Location) (some : text ≠ []) :
    l.lastOf text < l.advance text := by
  have whole := congrArg l.advance (List.dropLast_append_getLast some)
  rw [← whole, advance_append]
  exact lt_advance _ (List.cons_ne_nil _ _)

end Location

namespace Token

/-! ### Readings -/

theorem Numeral.Scan.run_text {s : Numeral.Scan} {text rest : List Char} {longer : Numeral.Scan}
    (ran : s.run text = .ok (longer, rest)) : s.text.length ≤ longer.text.length := by
  induction text generalizing s with
  | nil =>
    obtain ⟨rfl, rfl⟩ := by simpa [Numeral.Scan.run] using ran
    exact le_rfl
  | cons c text ih =>
    unfold Numeral.Scan.run at ran
    split at ran
    case h_1 next extended =>
      refine le_trans ?_ (ih ran)
      unfold Numeral.Scan.step at extended
      split_ifs at extended <;> simp at extended <;> subst extended <;>
        simp [Numeral.Scan.push]
    case h_2 =>
      obtain ⟨rfl, rfl⟩ := by simpa using ran
      exact le_rfl
    case h_3 => simp at ran

theorem Numeral.Scan.close_length {s : Numeral.Scan} {mark : List Char} {found : Lexeme}
    (closed : s.close mark = .ok found) : found.length = s.text.length + mark.length := by
  unfold Numeral.Scan.close at closed
  split at closed
  · cases closed
    rfl
  · cases closed

theorem Numeral.Scan.finish_length {s : Numeral.Scan} {rest : List Char} {found : Lexeme}
    (finished : s.finish rest = .ok found) : s.text.length ≤ found.length := by
  unfold Numeral.Scan.finish at finished
  split at finished
  · cases finished
  · split at finished
    · exact (close_length finished).symm ▸ Nat.le_add_right _ _
    · split_ifs at finished
      · exact (close_length finished).symm ▸ Nat.le_add_right _ _
      · exact (close_length finished).symm ▸ Nat.le_add_right _ _

theorem Numeral.read_length {opening rest : List Char} {found : Lexeme}
    (done : Numeral.read opening rest = .ok found) : opening.length ≤ found.length := by
  unfold Numeral.read at done
  cases ran : Numeral.Scan.run { text := opening, afterDigit := opening.head?.any Text.isDigit }
      rest with
  | error misread => simp [ran, bind, Except.bind] at done
  | ok result =>
    obtain ⟨longer, behind⟩ := result
    simp only [ran, bind, Except.bind] at done
    exact (Numeral.Scan.run_text ran).trans (Numeral.Scan.finish_length done)

theorem Quotation.lexeme_length {kind : Kind} {width : Nat} {text : List Char} {found : Lexeme}
    (read : Quotation.lexeme kind width text = .ok found) : found.length = text.length := by
  unfold Quotation.lexeme at read
  dsimp only at read
  split at read
  · cases read
    rfl
  · cases read

theorem Quotation.close?_length {quote : Char} {triple escaped : Bool}
    {seen rest text : List Char}
    (closed : Quotation.close? quote triple seen escaped rest = some text) : text ≠ [] := by
  induction rest generalizing seen escaped with
  | nil => simp [Quotation.close?] at closed
  | cons c rest ih =>
    unfold Quotation.close? at closed
    dsimp only at closed
    split at closed
    · cases closed
      simp
    · exact ih closed

theorem Quotation.string_length {quote : Char} {rest : List Char} {found : Lexeme}
    (read : Quotation.string quote rest = .ok found) : 0 < found.length := by
  unfold Quotation.string at read
  dsimp only at read
  split at read
  case h_1 text closed =>
    rw [Quotation.lexeme_length read, List.length_reverse]
    exact List.length_pos_iff.mpr (Quotation.close?_length closed)
  case h_2 => cases read

theorem Quotation.backtick_length {rest : List Char} {found : Lexeme}
    (read : Quotation.backtick rest = .ok found) : 0 < found.length := by
  unfold Quotation.backtick at read
  dsimp only at read
  split at read
  · rw [Quotation.lexeme_length read]
    simp
  · cases read

theorem word_length (text : List Char) : (word text).length = text.length := by
  unfold word
  dsimp only
  split <;> rfl

/-- A token takes at least one character. -/
theorem lexeme_length {c : Char} {rest : List Char} {found : Lexeme}
    (read : lexeme c rest = .ok found) : 0 < found.length := by
  unfold lexeme at read
  split at read
  · cases read
    simp [word_length]
  split at read
  · exact Quotation.backtick_length read
  split at read
  · exact Quotation.string_length read
  split at read
  · exact Nat.lt_of_lt_of_le (by simp) (Numeral.read_length read)
  split at read
  · cases read
  split at read
  · cases read
    exact Nat.one_pos
  split at read
  · exact Nat.lt_of_lt_of_le (by simp) (Numeral.read_length read)
  split at read
  · cases read
    exact Nat.two_pos
  · cases read
    exact Nat.one_pos

/-- What is read from a place in a text: it stands there or behind, and the end token apart it is
read over. -/
structure ReadFrom (location : Location) (text : List Char) (token : Token) (behind : Cursor) :
    Prop where
  after : location ≤ token.span.start
  stop : token.span.start ≤ token.span.stop
  upTo : token.span.start ≤ behind.location
  past : token.kind = .eof ∨
    token.span.stop < behind.location ∧ behind.rest.length < text.length

theorem ReadFrom.later {first location : Location} (skipped : List Char) {text : List Char}
    {token : Token} {behind : Cursor} (read : ReadFrom location text token behind) (order : first ≤ location) :
    ReadFrom first (skipped ++ text) token behind where
  after := order.trans read.after
  stop := read.stop
  upTo := read.upTo
  past := read.past.imp_right fun ⟨stop, fewer⟩ =>
    ⟨stop, fewer.trans_le (by simp)⟩

/-- A token that starts at the cursor. What is read over begins with the characters of its span. -/
theorem readFrom_skip (here : Cursor) {c : Char} {rest : List Char} {shown count : Nat}
    {token : Token} (text : here.rest = c :: rest) (span : token.span = here.spanOf shown)
    (some : 0 < shown) (within : shown ≤ count) :
    ReadFrom here.location (c :: rest) token (here.skip count) := by
  have start : token.span.start = here.location := by rw [span, Cursor.spanOf]
  have notEmpty : here.rest.take shown ≠ [] := by
    rw [text, Ne, List.take_eq_nil_iff]
    simp [some.ne']
  have stop : token.span.stop < (here.skip count).location := by
    have last := Location.lastOf_lt here.location notEmpty
    rw [← Nat.add_sub_cancel' within, ← Cursor.skip_skip]
    rw [span]
    exact last.trans_le (Location.le_advance _ _)
  have order : token.span.start ≤ token.span.stop := by
    rw [span]
    exact Location.le_advance _ _
  refine ⟨start.ge, order, order.trans stop.le, .inr ⟨stop, ?_⟩⟩
  simp only [Cursor.skip, text, List.length_drop, List.length_cons]
  omega

/-- The span of a comment ends in front of the carriage returns that end its line. -/
theorem readFrom_comment (here : Cursor) {rest : List Char} {token : Token}
    (text : here.rest = '#' :: rest) (read : (comment here rest).result = .ok token) :
    ReadFrom here.location ('#' :: rest) token (comment here rest).behind := by
  let body := '#' :: rest.takeWhile (· ≠ '\n')
  have shown : 0 < (body.reverse.dropWhile (· = '\r')).length := by
    rw [List.length_pos_iff, Ne, List.dropWhile_eq_nil_iff]
    intro all
    exact absurd (all '#' (by simp [body])) (by decide)
  have within : (body.reverse.dropWhile (· = '\r')).length ≤ body.length + 1 := by
    have fewer := (List.dropWhile_suffix (l := body.reverse) (· = '\r')).length_le
    rw [List.length_reverse] at fewer
    omega
  cases read
  exact readFrom_skip here text rfl shown within

/-- Blanks and continued lines are skipped; the token that follows is read. -/
theorem nextFrom_readFrom {cursor : Cursor} {location : Location} {text : List Char}
    {token : Token} (read : (nextFrom cursor location text).result = .ok token) :
    ReadFrom location text token (nextFrom cursor location text).behind := by
  fun_induction nextFrom cursor location text with
  | case1 location =>
    cases read
    exact ⟨le_rfl, le_rfl, le_rfl, .inl rfl⟩
  | case2 location tail =>
    exact readFrom_comment { cursor with rest := _, location } rfl read
  | case3 location tail _ =>
    cases read
    exact readFrom_skip { cursor with rest := _, location } rfl rfl Nat.one_pos le_rfl
  | case4 location tail _ _ _ =>
    cases read
    exact readFrom_skip { cursor with rest := _, location } rfl rfl Nat.one_pos (Nat.le_succ 1)
  | case5 location tail _ _ _ =>
    cases read
    exact readFrom_skip { cursor with rest := _, location } rfl rfl Nat.one_pos le_rfl
  | case6 location tail _ _ _ ih =>
    exact (ih read).later ['\\', '\n'] (Location.le_advance _ _)
  | case7 location tail _ _ _ ih =>
    exact (ih read).later ['\\', '\r', '\n'] (Location.le_advance _ _)
  | case8 => cases read
  | case9 => cases read
  | case10 location c tail _ _ _ _ blank ih =>
    exact (ih read).later [c] (Location.lt_after _ _).le
  | case11 location c tail _ _ _ _ notBlank =>
    unfold solid at read ⊢
    cases found : lexeme c tail with
    | error misread => simp [found] at read
    | ok lexeme =>
      simp only [found] at read ⊢
      cases read
      exact readFrom_skip { cursor with rest := _, location } rfl rfl (lexeme_length found) le_rfl

theorem next_readFrom {here behind : Cursor} {token : Token}
    (read : next here = (.ok token, behind)) :
    ReadFrom here.location here.rest token behind := by
  unfold next at read
  dsimp only at read
  split at read
  · simp at read
  · obtain ⟨result, rfl⟩ := Prod.mk.inj read
    exact nextFrom_readFrom result

/-! ### Sequences of tokens -/

/-- One token stands before another, and the end token apart it stops before it. -/
def Precedes (a b : Token) : Prop :=
  a.span.start ≤ b.span.start ∧ (a.kind = .eof ∨ a.span.stop < b.span.start)

/-- The tokens that are read without going on after an error, none of which stands before the
cursor. -/
theorem readAll_ordered (bound : Nat) (here : Cursor) :
    ((readAll false bound here).1.filterMap Except.toOption).Pairwise Precedes ∧
      ∀ t ∈ (readAll false bound here).1.filterMap Except.toOption,
        here.location ≤ t.span.start ∧ t.span.start ≤ t.span.stop := by
  induction bound generalizing here with
  | zero => simp [readAll]
  | succ bound ih =>
    unfold readAll
    cases reading : next here with
    | mk result behind =>
      cases result with
      | error e => simp [Except.toOption, List.filterMap_cons]
      | ok token =>
        have read := next_readFrom reading
        by_cases final : token.kind = .eof
        · simp [final, Except.toOption, read.after, read.stop]
        · obtain ⟨ordered, bounded⟩ := ih behind
          have ahead := (read.past.resolve_left final).1
          simp only [final, if_false, Prod.map_fst, List.filterMap_cons, Except.toOption]
          refine ⟨List.pairwise_cons.mpr ⟨fun t among => ?_, ordered⟩, fun t among => ?_⟩
          · have later := (bounded t among).1
            exact ⟨read.upTo.trans later, .inr (ahead.trans_le later)⟩
          · rcases List.mem_cons.mp among with rfl | among
            · exact ⟨read.after, read.stop⟩
            · have later := bounded t among
              exact ⟨read.after.trans (read.upTo.trans later.1), later.2⟩

/-- All readings but the last one give tokens that are no end token. -/
theorem exists_readings {bound : Nat} {here : Cursor} (enough : here.rest.length < bound) :
    ∃ (tokens : List Token) (last : Except Error Token),
      (readAll false bound here).1 = tokens.map .ok ++ [last] ∧
        (∀ t ∈ tokens, t.kind ≠ .eof) ∧ ∀ t, last = .ok t → t.kind = .eof := by
  induction bound generalizing here with
  | zero => omega
  | succ bound ih =>
    unfold readAll
    cases reading : next here with
    | mk result behind =>
      cases result with
      | error e => exact ⟨[], .error e, rfl, by simp, by simp⟩
      | ok token =>
        by_cases final : token.kind = .eof
        · exact ⟨[], .ok token, by simp [final], by simp, by simp [final]⟩
        · have fewer := ((next_readFrom reading).past.resolve_left final).2
          obtain ⟨tokens, last, all, inner, isEnd⟩ := @ih behind (by omega)
          refine ⟨token :: tokens, last, by simp [final, all], ?_, isEnd⟩
          exact List.forall_mem_cons.mpr ⟨final, inner⟩

namespace Stream

/-- The tokens of a stream, and the end token behind them if no error ends the text. -/
def all (s : Stream) : List Token := s.toList ++ s.ending.toOption.toList

/-- The tokens stand in order, and it is an end token that ends the text. -/
structure Ordered (s : Stream) : Prop where
  precedes : s.all.Pairwise Precedes
  stops : ∀ t ∈ s.all, t.span.start ≤ t.span.stop
  ending : ∀ token, s.ending = .ok token → token.kind = .eof

theorem ordered_ofReadings {readings : List (Except Error Token)} {s : Stream}
    (made : ofReadings readings = .ok s)
    (ordered : (readings.filterMap Except.toOption).Pairwise Precedes)
    (stops : ∀ t ∈ readings.filterMap Except.toOption, t.span.start ≤ t.span.stop)
    (ends : ∃ last, readings.getLast? = some last ∧ ∀ token, last = .ok token → token.kind = .eof) :
    s.Ordered := by
  obtain ⟨last, found, isEnd⟩ := ends
  rcases readings with _ | ⟨_ | first, _ | ⟨second, others⟩⟩
  · cases found
  · cases made
  · cases made
  · cases made
    have eof : first.kind = .eof := isEnd first (by simpa using found.symm)
    refine ⟨?_, ?_, by simpa using eof⟩
    · simp [all, toList, Except.toOption, Precedes, eof]
    · simpa [all, toList, Except.toOption, List.filterMap_cons] using stops
  · cases made
    rw [List.getLast?_cons_cons] at found
    have split : second :: others = (second :: others).dropLast ++ [last] :=
      (List.dropLast_append_getLast? last found).symm
    rw [List.filterMap_cons, split, List.filterMap_append] at ordered stops
    refine ⟨?_, ?_, by simpa [found] using isEnd⟩
    · cases last <;>
        simpa [all, toList, found, Except.toOption, List.filterMap_cons] using ordered
    · cases last <;>
        simpa [all, toList, found, Except.toOption, List.filterMap_cons] using stops

theorem ordered_ofText {text : Text.Decoded} {source : Nat} {s : Stream}
    (made : ofText text source = .ok s) : s.Ordered := by
  obtain ⟨ordered, bounds⟩ := readAll_ordered _ (Cursor.ofText text source)
  obtain ⟨tokens, last, all, -, isEnd⟩ :=
    exists_readings (Nat.lt_succ_self (Cursor.ofText text source).rest.length)
  refine ordered_ofReadings made ordered (fun t among => (bounds t among).2) ⟨last, ?_, isEnd⟩
  exact (congrArg List.getLast? all).trans List.getLast?_concat

/-- The stream goes on in order. -/
theorem Ordered.advance {s next : Stream} (ordered : s.Ordered)
    (advanced : s.advance = .ok next) : next.Ordered ∧ Precedes s.next next.next := by
  obtain ⟨first, rest, ending⟩ := s
  have precedes := ordered.precedes
  have stops := ordered.stops
  have ends := ordered.ending
  simp only [all, toList, List.cons_append, List.pairwise_cons] at precedes
  simp only [all, toList, List.cons_append, List.forall_mem_cons] at stops
  cases rest with
  | cons token rest =>
    cases advanced
    exact ⟨⟨precedes.2, stops.2, ends⟩, precedes.1 token (by simp)⟩
  | nil =>
    cases ending with
    | error e => cases advanced
    | ok token =>
      cases advanced
      have eof := ends token rfl
      have stop := stops.2 token (by simp [Except.toOption])
      refine ⟨⟨?_, ?_, ends⟩, precedes.1 token (by simp [Except.toOption])⟩
      · simp [all, toList, Except.toOption, Precedes, eof]
      · simpa [all, toList, Except.toOption] using stop

end Stream

end Token

end LazyConfig
