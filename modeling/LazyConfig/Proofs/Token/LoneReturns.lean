import LazyConfig.Proofs.Token.Legible

/-!
# Carriage returns alone

A text with a carriage return in the place of every line feed is read as the same tokens, up to
their locations, as long as no comment and no line with a backslash ends in such a return: a comment
goes on over it, and the backslash is refused.

The two texts have different lines, so two readings are compared that stand in front of the same
characters, wherever that is.
-/

namespace LazyConfig.Token

open Text (isBlank)

variable {text rest : List Char} {c : Char} {here other behind : Cursor}

/-- A carriage return that no line feed follows. -/
def loneReturn : List Char := ['\r']

/-- The text with a carriage return in the place of every line feed. -/
def withLoneReturns (text : String) : String := String.ofList (endLines loneReturn text.toList)

/-- The token apart from its location, or what is wrong. -/
def placeless : Except Error Token → Except Fault Token
  | .ok token => .ok token.bare
  | .error e => .error e.fault

/-! ### Lines -/

/-- The line of the last character that is left to read. A line feed belongs to the line it ends. -/
def Cursor.lastLine (here : Cursor) : Nat := here.location.line + here.rest.dropLast.count '\n'

/-- If the token is a comment, it starts in the given line. -/
def CommentIn (line : Nat) : Except Error Token → Prop
  | .ok token => token.text.toList.head? = some '#' → token.span.start.line = line
  | .error _ => True

instance (line : Nat) : (result : Except Error Token) → Decidable (CommentIn line result)
  | .ok token => inferInstanceAs (Decidable (token.text.toList.head? = some '#' → _))
  | .error _ => .isTrue trivial

/-- Behind a comment there is nothing but the line feed that closes it, if any. -/
def CommentsLast (text : String) : Prop :=
  let here := Cursor.ofString text
  ∀ result ∈ (here.tokens false).1, CommentIn here.lastLine result

instance (text : String) : Decidable (CommentsLast text) :=
  inferInstanceAs (Decidable (∀ result ∈ ((Cursor.ofString text).tokens false).1,
    CommentIn (Cursor.ofString text).lastLine result))

/-- No backslash stands in front of a line end. -/
def JoinsNoLines (text : String) : Prop := ¬['\\', '\n'] <:+: text.toList

instance (text : String) : Decidable (JoinsNoLines text) :=
  inferInstanceAs (Decidable (¬['\\', '\n'] <:+: text.toList))

theorem line_advance_dropLast (l : Location) (skipped : List Char) (some : rest ≠ []) :
    (l.advance skipped).line + rest.dropLast.count '\n' =
      l.line + (skipped ++ rest).dropLast.count '\n' := by
  rw [List.dropLast_append_of_ne_nil some, List.count_append, line_advance, Nat.add_assoc]

theorem lastLine_skip {count : Nat} (left : (here.skip count).rest ≠ []) :
    (here.skip count).lastLine = here.lastLine := by
  have same := line_advance_dropLast here.location (here.rest.take count) left
  rw [Cursor.skip, List.take_append_drop] at same
  exact same

/-- A reading leaves the end of the text where it is. -/
theorem nextFrom_lastLine {cursor : Cursor} {location : Location}
    (left : (nextFrom cursor location text).behind.rest ≠ []) :
    (nextFrom cursor location text).behind.lastLine =
      location.line + text.dropLast.count '\n' := by
  have some {location : Location} {tail : List Char}
      (left : (nextFrom cursor location tail).behind.rest ≠ []) : tail ≠ [] := by
    rintro rfl
    exact left rfl
  fun_induction nextFrom cursor location text with
  | case1 location => exact absurd rfl left
  | case2 | case3 | case4 | case5 | case8 | case9 => exact lastLine_skip left
  | case6 location tail _ _ _ ih =>
    exact (ih left).trans (line_advance_dropLast location ['\\', '\n'] (some left))
  | case7 location tail _ _ _ ih =>
    exact (ih left).trans (line_advance_dropLast location ['\\', '\r', '\n'] (some left))
  | case10 location c tail _ _ _ _ _ ih =>
    exact (ih left).trans (line_advance_dropLast location [c] (some left))
  | case11 location c tail here =>
    unfold solid at left ⊢
    split at left <;> exact lastLine_skip left

/-! ### Readings -/

/-- The same reading of the text with lone returns: the token is the same, up to its location, or
the same is wrong, and unless it is an error, the same is left to read. -/
structure SameTokens (reading other : Reading) : Prop where
  result : placeless other.result = placeless reading.result
  behind : ∀ token, reading.result = .ok token →
    other.behind.rest = endLines loneReturn reading.behind.rest

/-- A comment that takes all of the other text, while something is left behind the line feed that
closes it: something that the other comment shows, or further line feeds. -/
structure Swallows (reading other : Reading) (t u : Token) : Prop where
  result : reading.result = .ok t
  otherResult : other.result = .ok u
  inner : t.kind ≠ .eof ∧ u.kind ≠ .eof
  left : reading.behind.rest ≠ []
  otherNone : other.behind.rest = []
  longer : u.text = t.text → ∀ c ∈ reading.behind.rest, c = '\n'

theorem length_endLines (text : List Char) : (endLines loneReturn text).length = text.length := by
  induction text with
  | nil => rfl
  | cons c rest ih =>
    by_cases feed : c = '\n'
    · subst feed
      simp [loneReturn, ← ih]
    · simp [endLines_cons feed, ih]

theorem drop_endLines {ending : List Char} {count : Nat} (noFeed : '\n' ∉ text.take count) :
    (endLines ending text).drop count = endLines ending (text.drop count) := by
  have split : endLines ending text = text.take count ++ endLines ending (text.drop count) := by
    rw [← @endLines_of_not_mem ending _ noFeed, ← endLines_append, List.take_append_drop]
  rcases Nat.le_total count text.length with inside | beyond
  · rw [split, List.drop_left' (by rw [List.length_take, Nat.min_eq_left inside])]
  · rw [List.take_of_length_le beyond] at noFeed
    rw [endLines_of_not_mem noFeed, List.drop_eq_nil_of_le beyond, endLines_nil]

theorem lineFeed_not_mem_endLines (text : List Char) : '\n' ∉ endLines loneReturn text := by
  rw [endLines, List.mem_flatMap]
  rintro ⟨c, -, among⟩
  split at among
  · simp [loneReturn] at among
  · exact absurd (List.mem_singleton.mp among).symm ‹_›

theorem filter_endLines (noReturn : '\r' ∉ text) :
    (endLines loneReturn text).filter (· ≠ '\r') = text.filter (· ≠ '\n') := by
  induction text with
  | nil => rfl
  | cons c rest ih =>
    obtain ⟨noFirst, noOther⟩ : '\r' ≠ c ∧ '\r' ∉ rest := by simpa using noReturn
    by_cases feed : c = '\n'
    · subst feed
      simpa [loneReturn] using ih noOther
    · rw [endLines_cons feed, List.filter_cons_of_pos (by simpa using noFirst.symm),
        List.filter_cons_of_pos (by simpa using feed), ih noOther]

theorem solid_loneReturn (isRest : here.rest = c :: rest)
    (isOther : other.rest = c :: endLines loneReturn rest) (start : c ≠ '\n')
    (inLine : InLine (solid here c rest).behind (solid here c rest).result) :
    SameTokens (solid here c rest) (solid other c (endLines loneReturn rest)) := by
  have literal := fun isQuoted => not_mem_of_inLine isRest isQuoted inLine
  have oneLine := lexeme_shown start literal
  unfold solid
  rw [show lexeme c (endLines loneReturn rest) = lexeme c rest from lexeme_endLines literal]
  cases read : lexeme c rest with
  | ok found =>
    -- what is taken stands in one line, so it is the same text
    rw [read, shown] at oneLine
    have sameText : (c :: endLines loneReturn rest).take found.length =
        (c :: rest).take found.length := by
      rw [← endLines_cons start]
      exact take_endLines oneLine
    refine ⟨?_, fun _ _ => ?_⟩
    · simp [placeless, Token.bare, sameText]
    · change other.rest.drop found.length = endLines loneReturn (here.rest.drop found.length)
      rw [isRest, isOther, ← endLines_cons start]
      exact drop_endLines oneLine
  | error misread => exact ⟨rfl, fun token isToken => by cases isToken⟩

/-- Other tokens than comments start with the character that they are read from. -/
theorem commentIn_solid {line : Nat} (noComment : c ≠ '#') (rest : List Char) :
    CommentIn line (solid here c rest).result := by
  unfold solid
  cases lexeme c rest with
  | error misread => trivial
  | ok found =>
    intro isComment
    rw [String.toList_ofList] at isComment
    cases isLength : found.length with
    | zero => simp [isLength] at isComment
    | succ length => simp [isLength, noComment] at isComment

/-- The reading is that of a comment with the given text, and leaves what stands behind it. -/
structure ReadsComment (reading : Reading) (start : Location) (text after : List Char) (t : Token) :
    Prop where
  result : reading.result = .ok t
  kind : t.kind = .newline
  text : t.text.toList = '#' :: text
  value : t.value = .absent
  start : t.span.start = start
  behind : reading.behind.rest = after

/-- A comment goes on up to a line feed, or to the end of the text. -/
theorem exists_readsComment {line after : List Char} (isRest : here.rest = '#' :: rest)
    (noFeed : '\n' ∉ line) (split : rest = line ++ '\n' :: after ∨ rest = line ∧ after = []) :
    ∃ t, ReadsComment (comment here rest) here.location (line.filter (· ≠ '\r')) after t := by
  have isLine : rest.takeWhile (· ≠ '\n') = line := by
    have inLine : ∀ c ∈ line, (c ≠ '\n' : Bool) := fun c among => by
      simpa using ne_of_mem_of_not_mem among noFeed
    rcases split with rfl | ⟨rfl, -⟩
    · rw [List.takeWhile_append_of_pos inLine]
      simp
    · exact List.takeWhile_eq_self_iff.mpr inLine
  refine ⟨_, rfl, rfl, ?_, rfl, rfl, ?_⟩
  · rw [String.toList_ofList, isLine, List.filter_cons_of_pos (by decide)]
  · change here.rest.drop (('#' :: rest.takeWhile (· ≠ '\n')).length + 1) = after
    rw [isLine, isRest]
    rcases split with rfl | ⟨rfl, rfl⟩
    · simp [List.drop_append]
    · simp

theorem ReadsComment.commentIn_iff {reading : Reading} {start : Location} {after : List Char}
    {t : Token} {line : Nat} (reads : ReadsComment reading start text after t) :
    CommentIn line reading.result ↔ start.line = line := by
  have isComment : t.text.toList.head? = some '#' := by
    rw [reads.text]
    rfl
  rw [reads.result, CommentIn, reads.start]
  exact ⟨fun isLine => isLine isComment, fun isLine _ => isLine⟩

/-- A comment is the same in both texts if nothing stands behind its line. -/
theorem comment_last {line : List Char} (isRest : here.rest = '#' :: rest)
    (isOther : other.rest = '#' :: endLines loneReturn rest) (noReturn : '\r' ∉ rest)
    (noFeed : '\n' ∉ line) (split : rest = line ++ ['\n'] ∨ rest = line) :
    CommentIn here.lastLine (comment here rest).result ∧
      SameTokens (comment here rest) (comment other (endLines loneReturn rest)) := by
  obtain ⟨t, reads⟩ := exists_readsComment isRest noFeed (split.imp_right (⟨·, rfl⟩))
  obtain ⟨u, otherReads⟩ := exists_readsComment isOther (lineFeed_not_mem_endLines rest)
    (.inr ⟨rfl, rfl⟩)
  have sameText : rest.filter (· ≠ '\n') = line.filter (· ≠ '\r') := by
    rcases split with rfl | rfl
    · have noReturn : '\r' ∉ line := fun among => noReturn (by simp [among])
      rw [List.filter_append, filter_ne_of_not_mem noFeed, filter_ne_of_not_mem noReturn]
      simp
    · rw [filter_ne_of_not_mem noFeed, filter_ne_of_not_mem noReturn]
  refine ⟨reads.commentIn_iff.mpr ?_, ?_, fun _ _ => ?_⟩
  · have noFeed : '\n' ∉ here.rest.dropLast := by
      rcases split with rfl | rfl
      · rw [isRest, ← List.cons_append, List.dropLast_concat]
        simpa using noFeed
      · intro among
        have among := List.dropLast_subset _ among
        simp [isRest, noFeed] at among
    rw [Cursor.lastLine, List.count_eq_zero.mpr noFeed, Nat.add_zero]
  · rw [reads.result, otherReads.result]
    refine congrArg Except.ok (bare_eq_iff.mpr ⟨?_, ?_, ?_⟩)
    · rw [reads.kind, otherReads.kind]
    · rw [← String.toList_inj, reads.text, otherReads.text, filter_endLines noReturn, sameText]
    · rw [reads.value, otherReads.value]
  · rw [reads.behind, otherReads.behind, endLines_nil]

/-- A comment takes what stands behind its line for a part of it in the other text. -/
theorem comment_swallows {line after : List Char}
    (isRest : here.rest = '#' :: (line ++ '\n' :: after))
    (isOther : other.rest = '#' :: endLines loneReturn (line ++ '\n' :: after))
    (noReturn : '\r' ∉ line ++ '\n' :: after) (noFeed : '\n' ∉ line) (left : after ≠ []) :
    ¬CommentIn here.lastLine (comment here (line ++ '\n' :: after)).result ∧
      ∃ t u, Swallows (comment here (line ++ '\n' :: after))
        (comment other (endLines loneReturn (line ++ '\n' :: after))) t u := by
  obtain ⟨t, reads⟩ := exists_readsComment isRest noFeed (.inl rfl)
  obtain ⟨u, otherReads⟩ := exists_readsComment isOther (lineFeed_not_mem_endLines _)
    (.inr ⟨rfl, rfl⟩)
  constructor
  · -- the line feed in front of what is left ends another line than the last one
    rw [reads.commentIn_iff, Cursor.lastLine, isRest, ← List.cons_append,
      List.dropLast_append_of_ne_nil (by simp), List.count_append]
    obtain ⟨first, others, rfl⟩ := List.exists_cons_of_ne_nil left
    rw [List.dropLast_cons_cons, List.count_cons_self]
    omega
  · refine ⟨t, u, reads.result, otherReads.result, ?_, ?_, ?_, ?_⟩
    · simp [reads.kind, otherReads.kind]
    · rwa [reads.behind]
    · exact otherReads.behind
    · intro sameText
      have noReturnToo : '\r' ∉ line := fun among => noReturn (by simp [among])
      rw [← String.toList_inj, reads.text, otherReads.text, filter_endLines noReturn,
        filter_ne_of_not_mem noReturnToo, List.filter_append,
        filter_ne_of_not_mem noFeed] at sameText
      rw [reads.behind]
      simpa using sameText

/-- Readings of both texts agree, unless it is a comment that goes on in the other one. -/
inductive Compared (line : Nat) (reading other : Reading) : Prop
  | same (commentIn : CommentIn line reading.result) (same : SameTokens reading other)
  | swallowed {t u : Token} (later : ¬CommentIn line reading.result)
      (swallows : Swallows reading other t u)

theorem comment_compared (isRest : here.rest = '#' :: rest)
    (isOther : other.rest = '#' :: endLines loneReturn rest) (noReturn : '\r' ∉ rest) :
    Compared here.lastLine (comment here rest) (comment other (endLines loneReturn rest)) := by
  by_cases closed : '\n' ∈ rest
  case neg =>
    obtain ⟨commentIn, same⟩ := comment_last isRest isOther noReturn closed (.inr rfl)
    exact .same commentIn same
  obtain ⟨line, after, rfl, noFeed⟩ := List.eq_append_cons_of_mem closed
  by_cases none : after = []
  · subst none
    obtain ⟨commentIn, same⟩ := comment_last isRest isOther noReturn noFeed (.inl rfl)
    exact .same commentIn same
  · obtain ⟨later, t, u, swallows⟩ := comment_swallows isRest isOther noReturn noFeed none
    exact .swallowed later swallows

theorem nextFrom_return (cursor : Cursor) (location : Location) (noFeed : rest.head? ≠ some '\n') :
    nextFrom cursor location ('\r' :: rest) =
      lineEnd { cursor with rest := '\r' :: rest, location } 1 true := by
  rw [nextFrom.eq_def]
  simp [noFeed]

theorem nextFrom_backslashReturn (cursor : Cursor) (location : Location)
    (noFeed : rest.head? ≠ some '\n') :
    nextFrom cursor location ('\\' :: '\r' :: rest) =
      strayBackslash { cursor with rest := '\\' :: '\r' :: rest, location } 2 := by
  rw [nextFrom.eq_def]
  cases rest with
  | nil => rfl
  | cons c rest =>
    have other : c ≠ '\n' := by simpa using noFeed
    simp [other]

/-- Readings in front of the same characters of both texts. -/
theorem nextFrom_loneReturn {cursor otherCursor : Cursor} {location otherLocation : Location}
    {line : Nat} (noReturn : '\r' ∉ text) (noJoin : ¬['\\', '\n'] <:+: text)
    (inLine : InLine (nextFrom cursor location text).behind (nextFrom cursor location text).result)
    (isLine : text ≠ [] → location.line + text.dropLast.count '\n' = line) :
    Compared line (nextFrom cursor location text)
      (nextFrom otherCursor otherLocation (endLines loneReturn text)) := by
  fun_induction nextFrom cursor location text generalizing otherLocation with
  | case1 location => exact .same (by simp [endOfText, CommentIn]) ⟨rfl, fun _ _ => rfl⟩
  | case2 location tail =>
    -- a comment: whether its line is the last one decides
    obtain rfl := isLine (by simp)
    rw [endLines_cons (by decide), nextFrom_comment]
    exact @comment_compared tail { cursor with rest := '#' :: tail, location } _ rfl rfl
      (by simpa using noReturn)
  | case3 location tail =>
    -- a line end, and no line feed follows the return in the other text
    change Compared line _ (nextFrom _ _ ('\r' :: endLines loneReturn tail))
    have noFeed : (endLines loneReturn tail).head? ≠ some '\n' := fun isHead =>
      lineFeed_not_mem_endLines tail (List.mem_of_head? isHead)
    rw [nextFrom_return _ _ noFeed]
    exact .same (by simp [lineEnd, CommentIn]) ⟨rfl, fun _ _ => rfl⟩
  -- a text that starts with a carriage return is not among these texts
  | case4 location tail feeds => simp at noReturn
  | case5 location tail _ _ _ => simp at noReturn
  | case6 location tail => exact absurd ⟨[], tail, rfl⟩ noJoin
  | case7 location tail _ _ _ ih => simp at noReturn
  | case8 => simp at noReturn
  | case9 location tail noFeed _ noReturn' =>
    -- the backslash is in front of the same character in both texts, which ends no line
    have noEnd : tail.head? ≠ some '\n' ∧ tail.head? ≠ some '\r' :=
      ⟨head?_ne_of_ne_cons noFeed, head?_ne_of_ne_cons noReturn'⟩
    have sameHead : (endLines loneReturn tail).head? = tail.head? := head?_endLines noEnd.1
    rw [endLines_cons (by decide),
      nextFrom_strayBackslash _ _ (sameHead ▸ noEnd.1) (sameHead ▸ noEnd.2)]
    exact .same trivial ⟨rfl, fun _ isToken => by cases isToken⟩
  | case10 location c tail noComment noFeed noReturn' noBackslash blank ih =>
    have goesOn := @ih (otherLocation.after c) (fun among => noReturn (by simp [among]))
      (fun joins => noJoin (joins.trans (List.suffix_cons c tail).isInfix)) inLine
      (fun some => (line_advance_dropLast location [c] some).trans (isLine (by simp)))
    rw [endLines_cons noFeed, nextFrom_blank _ _ ⟨noComment, noFeed, noReturn', noBackslash⟩ blank]
    exact goesOn
  | case11 location c tail here noComment noFeed noReturn' noBackslash =>
    rename_i notBlank
    rw [endLines_cons noFeed,
      nextFrom_solid _ _ ⟨noComment, noFeed, noReturn', noBackslash⟩ notBlank]
    exact .same (commentIn_solid noComment tail) (solid_loneReturn rfl rfl noFeed inLine)

/-! ### Whole texts -/

theorem next_loneReturn {line : Nat} (whole : here.fault = none) (otherWhole : other.fault = none)
    (isOther : other.rest = endLines loneReturn here.rest)
    (noReturn : '\r' ∉ here.rest) (noJoin : ¬['\\', '\n'] <:+: here.rest)
    (inLine : InLine (next here).2 (next here).1) (isLine : here.rest ≠ [] → here.lastLine = line) :
    ∃ reading otherReading, next here = (reading.result, reading.behind) ∧
      next other = (otherReading.result, otherReading.behind) ∧
      Compared line reading otherReading := by
  rw [next_of_fault_eq_none whole] at inLine ⊢
  rw [next_of_fault_eq_none otherWhole, isOther]
  exact ⟨_, _, rfl, rfl, nextFrom_loneReturn noReturn noJoin inLine isLine⟩

theorem next_lastLine {result : Except Error Token} (whole : here.fault = none)
    (read : next here = (result, behind)) (left : behind.rest ≠ []) :
    behind.lastLine = here.lastLine := by
  rw [next_of_fault_eq_none whole] at read
  obtain ⟨-, rfl⟩ := Prod.mk.inj read
  exact nextFrom_lastLine left

theorem next_of_rest_eq_nil (whole : here.fault = none) (none : here.rest = []) :
    ∃ t behind, next here = (.ok t, behind) ∧ t.kind = .eof := by
  rw [next_of_fault_eq_none whole, none]
  exact ⟨_, _, rfl, rfl⟩

theorem next_of_lineFeed (whole : here.fault = none) (isRest : here.rest = '\n' :: rest) :
    ∃ t behind, next here = (.ok t, behind) ∧ t.kind = .newline := by
  rw [next_of_fault_eq_none whole, isRest, nextFrom.eq_def]
  exact ⟨_, _, rfl, rfl⟩

theorem exists_error_of_placeless {result : Except Error Token} {e : Error}
    (same : placeless result = placeless (.error e)) : ∃ other, result = .error other := by
  cases result with
  | error other => exact ⟨other, rfl⟩
  | ok token => cases same

theorem exists_token_of_placeless {result : Except Error Token} {t : Token}
    (same : placeless result = placeless (.ok t)) : ∃ u, result = .ok u ∧ u.kind = t.kind := by
  cases result with
  | error e => cases same
  | ok u => exact ⟨u, rfl, (bare_eq_iff.mp (Except.ok.inj same)).1⟩

theorem readAll_of_error {e : Error} (isNext : next here = (.error e, behind)) (bound : Nat) :
    readAll false (bound + 1) here = ([.error e], behind) := by
  rw [readAll, isNext]
  rfl

/-- Behind a comment that takes everything the end token is read, where the first text goes on. -/
theorem readAll_ne_of_swallows {reading otherReading : Reading} {t u : Token} {bound : Nat}
    (whole : here.fault = none) (otherWhole : other.fault = none)
    (read : next here = (reading.result, reading.behind))
    (otherRead : next other = (otherReading.result, otherReading.behind))
    (swallows : Swallows reading otherReading t u) (enough : reading.behind.rest.length < bound) :
    (readAll false (bound + 1) other).1.map placeless ≠
      (readAll false (bound + 1) here).1.map placeless := by
  have stillWhole := (next_behind whole read).2
  have otherStillWhole := (next_behind otherWhole otherRead).2
  rw [swallows.result] at read
  rw [swallows.otherResult] at otherRead
  rw [readAll_of_token read swallows.inner.1, readAll_of_token otherRead swallows.inner.2]
  intro same
  obtain ⟨sameToken, sameRest⟩ := List.cons.inj same
  have sameText : u.text = t.text := (bare_eq_iff.mp (Except.ok.inj sameToken)).2.1
  -- the other comment shows no more characters, so line feeds are left
  obtain ⟨c, left, isLeft⟩ := List.exists_cons_of_ne_nil swallows.left
  obtain rfl := swallows.longer sameText c (by simp [isLeft])
  obtain ⟨lineEnd, _, isNext, isLineEnd⟩ := next_of_lineFeed stillWhole isLeft
  obtain ⟨ending, _, otherNext, isEnd⟩ := next_of_rest_eq_nil otherStillWhole swallows.otherNone
  obtain ⟨bound, rfl⟩ := Nat.exists_eq_add_one_of_ne_zero (Nat.ne_zero_of_lt enough)
  rw [readAll_of_token isNext (by simp [isLineEnd]), readAll_of_end otherNext isEnd] at sameRest
  have sameKind := (bare_eq_iff.mp (Except.ok.inj (List.cons.inj sameRest).1)).1
  rw [isEnd, isLineEnd] at sameKind
  cases sameKind

/-- The first reading of both texts is the same, and then the others are what matters. -/
theorem readAll_iff_of_same {reading otherReading : Reading} {bound line : Nat}
    (read : next here = (reading.result, reading.behind))
    (otherRead : next other = (otherReading.result, otherReading.behind))
    (commentIn : CommentIn line reading.result) (same : SameTokens reading otherReading)
    (later : ∀ token, reading.result = .ok token → token.kind ≠ .eof →
      ((readAll false bound otherReading.behind).1.map placeless =
          (readAll false bound reading.behind).1.map placeless ↔
        ∀ result ∈ (readAll false bound reading.behind).1, CommentIn line result)) :
    (readAll false (bound + 1) other).1.map placeless =
        (readAll false (bound + 1) here).1.map placeless ↔
      ∀ result ∈ (readAll false (bound + 1) here).1, CommentIn line result := by
  have sameResult := same.result
  cases isResult : reading.result with
  | error e =>
    rw [isResult] at read sameResult
    obtain ⟨otherError, isOther⟩ := exists_error_of_placeless sameResult
    rw [isOther] at otherRead sameResult
    rw [readAll_of_error read, readAll_of_error otherRead]
    simp [sameResult, CommentIn]
  | ok token =>
    rw [isResult] at read sameResult commentIn
    obtain ⟨otherToken, isOther, sameKind⟩ := exists_token_of_placeless sameResult
    rw [isOther] at otherRead sameResult
    by_cases isEnd : token.kind = .eof
    · rw [readAll_of_end read isEnd, readAll_of_end otherRead (sameKind.trans isEnd)]
      simp [sameResult, commentIn]
    · rw [readAll_of_token read isEnd, readAll_of_token otherRead (sameKind ▸ isEnd), List.map_cons,
        List.map_cons, sameResult, List.cons_inj_right, List.forall_mem_cons,
        later token isResult isEnd]
      exact (and_iff_right commentIn).symm

/-- Both texts are read to their ends, or to the same fault, exactly if no comment goes on. -/
theorem readAll_loneReturn_iff {bound line : Nat} (enough : here.rest.length < bound)
    (whole : here.fault = none) (otherWhole : other.fault = none)
    (isOther : other.rest = endLines loneReturn here.rest)
    (noReturn : '\r' ∉ here.rest) (noJoin : ¬['\\', '\n'] <:+: here.rest)
    (inLine : ∀ result ∈ (readAll false bound here).1,
      InLine (readAll false bound here).2 result)
    (isLine : here.rest ≠ [] → here.lastLine = line) :
    (readAll false bound other).1.map placeless = (readAll false bound here).1.map placeless ↔
      ∀ result ∈ (readAll false bound here).1, CommentIn line result := by
  induction bound generalizing here other with
  | zero => omega
  | succ bound ih =>
    have inLineFirst : InLine (next here).2 (next here).1 := by
      unfold readAll at inLine
      rcases read : next here with ⟨e | token, behind⟩ <;> rw [read] at inLine
      · exact inLine _ (by simp)
      · exact inLine (.ok token) (by dsimp only; split <;> simp)
    obtain ⟨reading, otherReading, read, otherRead, compared⟩ := next_loneReturn whole otherWhole
      isOther noReturn noJoin inLineFirst isLine
    cases compared with
    | @swallowed t u later swallows =>
      -- neither are the tokens the same, nor does the comment stand in the last line
      have isNext : next here = (.ok t, reading.behind) := swallows.result ▸ read
      have fewer := ((next_readFrom isNext).past.resolve_left swallows.inner.1).2
      refine iff_of_false
        (readAll_ne_of_swallows whole otherWhole read otherRead swallows (by omega)) fun all => ?_
      refine later (all _ ?_)
      rw [readAll_of_token isNext swallows.inner.1, swallows.result]
      exact List.mem_cons_self
    | same commentIn same =>
      refine readAll_iff_of_same read otherRead commentIn same fun token isResult isEnd => ?_
      have isNext : next here = (.ok token, reading.behind) := isResult ▸ read
      have fewer := ((next_readFrom isNext).past.resolve_left isEnd).2
      obtain ⟨isSuffix, stillWhole⟩ := next_behind whole read
      have isLater : (readAll false (bound + 1) here).2 =
          (readAll false bound reading.behind).2 := by
        simp [readAll, isNext, isEnd]
      rw [readAll_of_token isNext isEnd, isLater] at inLine
      refine ih (by omega) stillWhole (next_behind otherWhole otherRead).2
        (same.behind token isResult) (fun among => noReturn (isSuffix.subset among))
        (fun joins => noJoin (joins.trans isSuffix.isInfix))
        (fun result among => inLine result (List.mem_cons_of_mem _ among)) fun left => ?_
      have some : here.rest ≠ [] := fun none => left (List.suffix_nil.mp (none ▸ isSuffix))
      exact (next_lastLine whole read left).trans (isLine some)

/-- In the other text the returns behind backslashes are refused. -/
theorem next_backslashReturn {text : String} {before after : List Char}
    (isText : text.toList = before ++ '\\' :: '\n' :: after) :
    let joining := (Cursor.ofString (withLoneReturns text)).skip before.length
    ∃ behind, next joining = (.error ⟨.character '\\', (joining.skip 2).location⟩, behind) := by
  intro joining
  have isOther : (withLoneReturns text).toList =
      endLines loneReturn before ++ endLines loneReturn ('\\' :: '\n' :: after) := by
    rw [withLoneReturns, String.toList_ofList, isText, endLines_append]
  have isRest : joining.rest = '\\' :: '\r' :: endLines loneReturn after := by
    change (withLoneReturns text).toList.drop before.length = _
    rw [isOther]
    exact List.drop_left' (length_endLines before)
  have noFeed : (endLines loneReturn after).head? ≠ some '\n' := fun isHead =>
    lineFeed_not_mem_endLines after (List.mem_of_head? isHead)
  rw [next_of_fault_eq_none rfl, isRest, nextFrom_backslashReturn _ _ noFeed, ← isRest]
  exact ⟨_, rfl⟩

/-- Take a text whose literals do not go on over line ends, with carriage returns alone in the place
of its line feeds. If no line of it goes on behind a backslash, the tokens are the same exactly if
nothing stands behind the line of a comment. A backslash in front of such a return is refused. -/
theorem lone_returns_read {text : String} (noReturn : '\r' ∉ text.toList)
    (inLine : LiteralsInLine text) :
    (JoinsNoLines text →
      (((Cursor.ofString (withLoneReturns text)).tokens false).1.map placeless =
        ((Cursor.ofString text).tokens false).1.map placeless ↔ CommentsLast text)) ∧
    ∀ before after, text.toList = before ++ '\\' :: '\n' :: after →
      let joining := (Cursor.ofString (withLoneReturns text)).skip before.length
      ∃ behind, next joining = (.error ⟨.character '\\', (joining.skip 2).location⟩, behind) := by
  refine ⟨fun noJoin => ?_, fun before after isText => next_backslashReturn isText⟩
  have isOther : (Cursor.ofString (withLoneReturns text)).rest =
      endLines loneReturn (Cursor.ofString text).rest :=
    String.toList_ofList
  have sameLength : (Cursor.ofString (withLoneReturns text)).rest.length =
      (Cursor.ofString text).rest.length := by
    rw [isOther, length_endLines]
  unfold Cursor.tokens
  rw [sameLength]
  exact readAll_loneReturn_iff (Nat.lt_succ_self _) rfl rfl isOther noReturn noJoin inLine
    fun _ => rfl

/-- Entries with a comment in the last line, others with one in the first line, and a line that goes
on. -/
theorem lone_returns_read_entries :
    ((Cursor.ofString (withLoneReturns "a: 'x'\n b: 1_0 # last\n")).tokens false).1.map placeless =
        ((Cursor.ofString "a: 'x'\n b: 1_0 # last\n").tokens false).1.map placeless ∧
      ((Cursor.ofString (withLoneReturns "a: 1 # first\nb: 2")).tokens false).1.map placeless ≠
        ((Cursor.ofString "a: 1 # first\nb: 2").tokens false).1.map placeless ∧
      ∃ e behind, next ((Cursor.ofString (withLoneReturns "a\\\nb")).skip 1) = (.error e, behind) := by
  have lastLine := @lone_returns_read "a: 'x'\n b: 1_0 # last\n" (by decide) (by decide +kernel)
  have firstLine := @lone_returns_read "a: 1 # first\nb: 2" (by decide) (by decide +kernel)
  have joining := @lone_returns_read "a\\\nb" (by decide) (by decide +kernel)
  refine ⟨(lastLine.1 (by decide +kernel)).mpr (by decide +kernel),
    mt (firstLine.1 (by decide +kernel)).mp (by decide +kernel), ?_⟩
  obtain ⟨behind, isNext⟩ := joining.2 ['a'] ['b'] rfl
  exact ⟨_, behind, isNext⟩

/-- A comment swallows the entry behind it. -/
theorem comment_not_closed_by_return : ¬∀ text : String,
    '\r' ∉ text.toList → LiteralsInLine text →
    ((Cursor.ofString (withLoneReturns text)).tokens false).1.map placeless =
      ((Cursor.ofString text).tokens false).1.map placeless := by
  intro law
  have same := law "# c\nb" (by decide) (by decide +kernel)
  have differ : ((Cursor.ofString (withLoneReturns "# c\nb")).tokens false).1.length ≠
      ((Cursor.ofString "# c\nb").tokens false).1.length := by
    decide +kernel
  exact differ (by simpa using congrArg List.length same)

end LazyConfig.Token
