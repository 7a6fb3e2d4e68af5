import LazyConfig.Proofs.Token.LoneReturns

/-!
# Tokens survive being written out

The texts of the tokens of a text, each behind a separator, are read as the same tokens again. A
token is legible, a line end or a comment. A legible one is read from its own text in front of
everything that does not go on with it, a line end is one character, and a comment goes on to the
end of its line, so that a line feed has to stand behind it. A blank goes on with no token.
-/

namespace LazyConfig.Token

open Text (isBlank)

variable {text more after : List Char} {here : Cursor} {t : Token} {tokens : List Token}

/-! ### The text of tokens -/

/-- What stands between a token and the next one. A blank would go on with a comment. -/
def separator (t : Token) : Char := if t.text.toList.head? = some '#' then '\n' else ' '

/-- The texts of tokens with a separator between each of them and the next one. -/
def spacedTexts : List Token → List Char
  | [] => []
  | [t] => t.text.toList
  | t :: next :: rest => t.text.toList ++ separator t :: spacedTexts (next :: rest)

/-- The text that tokens are written as. -/
def respelled (tokens : List Token) : String := String.ofList (spacedTexts tokens)

/-- What is written behind a token of a list: nothing, or a separator and the others. -/
theorem spacedTexts_cons (t : Token) (rest : List Token) :
    ∃ more, spacedTexts (t :: rest) = t.text.toList ++ more ∧
      (more = separator t :: spacedTexts rest ∨ more = [] ∧ spacedTexts rest = []) := by
  cases rest with
  | nil => exact ⟨[], (List.append_nil _).symm, .inr ⟨rfl, rfl⟩⟩
  | cons next rest => exact ⟨_, rfl, .inl rfl⟩

/-! ### What tokens look like -/

/-- The tokens that a text has before its end. -/
inductive Shape (t : Token) : Prop
  | legible (legible : t.Legible)
  | lineEnd (kind : t.kind = .newline) (text : t.text = "\n") (value : t.value = .absent)
  | comment (body : List Char) (kind : t.kind = .newline) (text : t.text.toList = '#' :: body)
      (noFeed : '\n' ∉ body) (noReturn : '\r' ∉ body) (value : t.value = .absent)

theorem Shape.inner (shape : t.Shape) : t.kind ≠ .eof := by
  cases shape with
  | legible legible => exact legible.inner
  | lineEnd kind | comment _ kind => simp [kind]

theorem shape_lineEnd (here : Cursor) (length : Nat) (peeks : Bool)
    (read : (lineEnd here length peeks).result = .ok t) : t.Shape := by
  cases read
  exact .lineEnd rfl rfl rfl

theorem shape_comment (rest : List Char) (read : (comment here rest).result = .ok t) :
    t.Shape := by
  cases read
  apply Shape.comment ((rest.takeWhile (· ≠ '\n')).filter (· ≠ '\r')) rfl
  · rw [String.toList_ofList, List.filter_cons_of_pos (by decide)]
  · -- the comment is cut at the first line feed
    intro among
    have inLine := List.mem_takeWhile_imp (List.mem_of_mem_filter among)
    simp at inLine
  · intro among
    have shown := List.of_mem_filter among
    simp at shown
  · rfl

/-- The token behind the last character, apart from its location. -/
def bareEnd : Token := ⟨.eof, "", .absent, {}⟩

theorem shape_of_nextFrom {cursor : Cursor} {location : Location}
    (read : (nextFrom cursor location text).result = .ok t) :
    t.Shape ∨ t.bare = bareEnd ∨ t.kind ∉ [Kind.eof, .newline] := by
  fun_induction nextFrom cursor location text with
  | case1 =>
    cases read
    exact .inr (.inl rfl)
  | case2 location tail => exact .inl (shape_comment tail read)
  | case3 | case4 | case5 => exact .inl (shape_lineEnd _ _ _ read)
  | case6 _ _ _ _ _ ih | case7 _ _ _ _ _ ih | case10 _ _ _ _ _ _ _ _ ih => exact ih read
  | case8 | case9 => cases read
  | case11 location c tail =>
    -- nothing ends inside of a line
    unfold solid at read
    cases isFound : lexeme c tail with
    | error misread => simp [isFound] at read
    | ok found =>
      simp only [isFound, Except.ok.injEq] at read
      subst read
      exact .inr (.inr (lexeme_kind isFound))

theorem shape_of_next {behind : Cursor} (read : next here = (.ok t, behind)) :
    t.Shape ∨ t.bare = bareEnd := by
  have result : (nextFrom here here.location here.rest).result = .ok t := by
    unfold next at read
    dsimp only at read
    split at read
    · cases read
    · exact congrArg Prod.fst read
  rcases shape_of_nextFrom result with shape | isEnd | inLine
  · exact .inl shape
  · exact .inr isEnd
  · simp only [List.mem_cons, List.not_mem_nil, or_false, not_or] at inLine
    exact .inl (.legible (legible_of_next read inLine.1 inLine.2))

theorem shape_of_readAll {resume : Bool} {bound : Nat}
    (among : .ok t ∈ (readAll resume bound here).1) : t.Shape ∨ t.bare = bareEnd := by
  induction bound generalizing here with
  | zero => cases among
  | succ bound ih =>
    unfold readAll at among
    rcases isNext : next here with ⟨e | u, behind⟩
    · simp only [isNext] at among
      split at among
      · exact ih (List.mem_of_ne_of_mem (by simp) among)
      · simp at among
    · simp only [isNext] at among
      split at among
      · obtain rfl : t = u := by simpa using among
        exact shape_of_next isNext
      · rcases List.mem_cons.mp among with same | among
        · cases same
          exact shape_of_next isNext
        · exact ih among

/-! ### Tokens in front of a separator -/

/-- What is read depends on a cursor only through its source and what is wrong behind the text. -/
theorem nextFrom_congr {cursor other : Cursor} (sameSource : other.source = cursor.source)
    (sameFault : other.fault = cursor.fault) (location : Location) (text : List Char) :
    nextFrom other location text = nextFrom cursor location text := by
  have same (rest : List Char) (location : Location) :
      ({ other with rest, location } : Cursor) = { cursor with rest, location } := by
    rw [sameSource, sameFault]
  fun_induction nextFrom cursor location text with
  | case1 => rw [nextFrom.eq_def, same]
  | case2 location tail => rw [nextFrom_comment, same]
  | case3 | case4 | case5 | case8 | case9 | case11 =>
    rw [nextFrom.eq_def]
    simp_all
    rfl
  | case6 _ _ _ _ _ ih | case7 _ _ _ _ _ ih | case10 _ _ _ _ _ _ _ _ ih =>
    rw [nextFrom.eq_def]
    simp_all

theorem nextFrom_lineFeed (cursor : Cursor) (location : Location) (rest : List Char) :
    nextFrom cursor location ('\n' :: rest) =
      lineEnd { cursor with rest := '\n' :: rest, location } 1 false := by
  rw [nextFrom.eq_def]
  rfl

/-- A blank in front of a token is skipped. -/
theorem next_of_blank {rest : List Char} (whole : here.fault = none)
    (isRest : here.rest = ' ' :: rest) : next here = next (here.skip 1) := by
  have left : (here.skip 1).rest = rest := by
    rw [Cursor.skip, isRest]
    rfl
  have place : (here.skip 1).location = here.location.after ' ' := by
    rw [Cursor.skip, isRest]
    rfl
  have plain : IsPlain ' ' := ⟨by decide, by decide, by decide, by decide⟩
  have wholeLeft : (here.skip 1).fault = none := whole
  have skipped := nextFrom_blank here here.location plain (by decide +kernel) rest
  have elsewhere := @nextFrom_congr here (here.skip 1) rfl rfl (here.location.after ' ') rest
  rw [next_of_fault_eq_none whole, next_of_fault_eq_none wholeLeft, isRest, left, place, skipped,
    elsewhere]

/-- What a reading leaves of what is written behind a token, but for a blank. -/
structure Leaves (behind : Cursor) (after : List Char) : Prop where
  whole : behind.fault = none
  isRest : behind.rest = after ∨ behind.rest = ' ' :: after

/-- A token that takes its own text leaves a blank to skip. -/
theorem leaves_of_blank (whole : here.fault = none) (isRest : here.rest = t.text.toList ++ more)
    (noComment : t.text.toList.head? ≠ some '#')
    (follows : more = separator t :: after ∨ more = [] ∧ after = []) :
    Leaves (here.skip t.text.toList.length) after := by
  have left : (here.skip t.text.toList.length).rest = more := by
    rw [Cursor.skip, isRest]
    exact List.drop_left
  refine ⟨whole, ?_⟩
  rw [left]
  rcases follows with rfl | ⟨rfl, rfl⟩
  · rw [separator, if_neg noComment]
    exact .inr rfl
  · exact .inl rfl

theorem Legible.next_spaced (legible : t.Legible) (whole : here.fault = none)
    (isRest : here.rest = t.text.toList ++ more)
    (follows : more = separator t :: after ∨ more = [] ∧ after = []) :
    ∃ u behind, Token.next here = (.ok u, behind) ∧ u.bare = t.bare ∧ Leaves behind after := by
  obtain ⟨c, rest, found, isText, plain, -⟩ := legible.exists_lexeme
  have noComment : t.text.toList.head? ≠ some '#' := by
    simp [isText, plain.noComment]
  have ends : ∀ d ∈ more.head?, endsBefore t.text.toList d := by
    intro d isNext
    obtain rfl : d = ' ' := by
      rcases follows with rfl | ⟨rfl, -⟩
      · simpa [separator, noComment, eq_comm] using isNext
      · cases isNext
    rw [isText]
    exact endsBefore_of_endsToken (by decide +kernel) c rest
  obtain ⟨u, isNext, same⟩ := legible.next whole isRest ends
  exact ⟨u, _, isNext, same, leaves_of_blank whole isRest noComment follows⟩

/-- A token is read in front of its separator, and in front of the end of the text. -/
theorem Shape.next (shape : t.Shape) (whole : here.fault = none)
    (isRest : here.rest = t.text.toList ++ more)
    (follows : more = separator t :: after ∨ more = [] ∧ after = []) :
    ∃ u behind, Token.next here = (.ok u, behind) ∧ u.bare = t.bare ∧ Leaves behind after := by
  cases shape with
  | legible legible => exact legible.next_spaced whole isRest follows
  | lineEnd kind text value =>
    have isFeed : here.rest = '\n' :: more := by
      rw [isRest, text]
      rfl
    have noComment : t.text.toList.head? ≠ some '#' := by
      rw [text]
      decide
    have behind := leaves_of_blank whole isRest noComment follows
    rw [text] at behind
    refine ⟨⟨.newline, "\n", .absent, here.spanOf 1⟩, here.skip 1, ?_, ?_, behind⟩
    · have same : { here with rest := '\n' :: more, location := here.location } = here := by
        rw [← isFeed]
      rw [next_of_fault_eq_none whole, isFeed, nextFrom_lineFeed, same]
      rfl
    · exact bare_eq_iff.mpr ⟨kind.symm, text.symm, value.symm⟩
  | comment body kind text noFeed noReturn value =>
    have isSeparator : separator t = '\n' := by
      rw [separator, text]
      rfl
    rw [isSeparator] at follows
    rw [text] at isRest
    have split : body ++ more = body ++ '\n' :: after ∨ body ++ more = body ∧ after = [] := by
      rcases follows with rfl | ⟨rfl, rfl⟩
      · exact .inl rfl
      · exact .inr ⟨List.append_nil _, rfl⟩
    obtain ⟨u, reads⟩ := exists_readsComment isRest noFeed split
    have same : { here with rest := '#' :: (body ++ more), location := here.location } = here := by
      rw [← List.cons_append, ← isRest]
    refine ⟨u, (Token.comment here (body ++ more)).behind, ?_, ?_, whole, .inl reads.behind⟩
    · rw [next_of_fault_eq_none whole, isRest, List.cons_append, nextFrom_comment, same]
      exact congrArg (·, _) reads.result
    · refine bare_eq_iff.mpr ⟨reads.kind.trans kind.symm, ?_, reads.value.trans value.symm⟩
      -- no carriage return is left to take out of the text
      rw [← String.toList_inj, reads.text, text, filter_ne_of_not_mem noReturn]

/-! ### All tokens -/

/-- A blank in front of the tokens changes nothing. -/
theorem Leaves.exists_readAll_eq (leaves : Leaves here after) :
    ∃ other : Cursor, other.fault = none ∧ other.rest = after ∧
      other.rest.length ≤ here.rest.length ∧
      ∀ resume bound, readAll resume (bound + 1) here = readAll resume (bound + 1) other := by
  rcases leaves.isRest with isRest | isRest
  · exact ⟨here, leaves.whole, isRest, le_rfl, fun _ _ => rfl⟩
  · have left : (here.skip 1).rest = after := by
      rw [Cursor.skip, isRest]
      rfl
    refine ⟨here.skip 1, leaves.whole, left, ?_, fun resume bound => ?_⟩
    · rw [left, isRest]
      exact Nat.le_succ _
    · rw [readAll, readAll, next_of_blank leaves.whole isRest]

/-- Tokens are read from their spaced texts, with a blank in front of them or without. -/
theorem readAll_spacedTexts (shapes : ∀ t ∈ tokens, t.Shape)
    (leaves : Leaves here (spacedTexts tokens)) {bound : Nat} (enough : here.rest.length < bound)
    (resume : Bool) :
    (readAll resume bound here).1.map placeless =
      tokens.map (.ok ·.bare) ++ [.ok bareEnd] := by
  -- each reading takes a token and what separates it from the others
  induction tokens generalizing here bound with
  | nil =>
    obtain ⟨bound, rfl⟩ := Nat.exists_eq_add_one_of_ne_zero (Nat.ne_zero_of_lt enough)
    obtain ⟨other, whole, isRest, -, sameReadings⟩ := leaves.exists_readAll_eq
    have isNext : Token.next other = (.ok ⟨.eof, "", .absent, other.spanOf 0⟩, other) := by
      have same : { other with rest := [], location := other.location } = other := by
        rw [← show other.rest = [] from isRest]
      rw [next_of_fault_eq_none whole, show other.rest = [] from isRest, nextFrom.eq_def]
      simp only [endOfText, same]
    rw [sameReadings, readAll_of_end isNext rfl]
    rfl
  | cons t tokens ih =>
    obtain ⟨bound, rfl⟩ := Nat.exists_eq_add_one_of_ne_zero (Nat.ne_zero_of_lt enough)
    obtain ⟨other, whole, isRest, noLonger, sameReadings⟩ := leaves.exists_readAll_eq
    obtain ⟨more, split, follows⟩ := spacedTexts_cons t tokens
    obtain ⟨u, behind, isNext, same, left⟩ :=
      (shapes t (by simp)).next whole (isRest.trans split) follows
    have inner : u.kind ≠ .eof := by
      rw [(bare_eq_iff.mp same).1]
      exact (shapes t (by simp)).inner
    have fewer := ((next_readFrom isNext).past.resolve_left inner).2
    have others := ih (fun t among => shapes t (by simp [among])) left
      (show behind.rest.length < bound by omega)
    rw [sameReadings, readAll_of_token isNext inner, List.map_cons, others, placeless, same]
    rfl

/-- A text that is read without an error is written out as its tokens, and these are read again:
without an error, in the same order, with the same kinds, texts and values. -/
theorem respelled_read_back {text : String} {tokens : List Token} {ending : Token}
    (read : ((Cursor.ofString text).tokens false).1 = (tokens ++ [ending]).map .ok) :
    ((Cursor.ofString (respelled tokens)).tokens false).1.map placeless =
      (tokens ++ [ending]).map (.ok ·.bare) := by
  -- the end token is the last one, and no other
  obtain ⟨all, last, sameReadings, inner, isEnd⟩ :=
    exists_readings (Nat.lt_succ_self (Cursor.ofString text).rest.length)
  have split : all.map .ok ++ [last] = tokens.map .ok ++ [.ok ending] := by
    rw [← sameReadings, ← List.map_singleton, ← List.map_append]
    exact read
  obtain ⟨sameTokens, sameLast⟩ := List.append_inj' split rfl
  obtain rfl : all = tokens := List.map_injective_iff.mpr (fun _ _ => Except.ok.inj) sameTokens
  have endKind : ending.kind = .eof := isEnd ending (by simpa using sameLast)
  have shapes (t : Token) (among : t ∈ all ++ [ending]) : t.Shape ∨ t.bare = bareEnd := by
    have result : .ok t ∈ ((Cursor.ofString text).tokens false).1 := by
      rw [read]
      exact List.mem_map_of_mem among
    exact shape_of_readAll result
  have isBare : ending.bare = bareEnd :=
    (shapes ending (by simp)).resolve_left fun shape => shape.inner endKind
  have others (t : Token) (among : t ∈ all) : t.Shape :=
    (shapes t (by simp [among])).resolve_right fun isEnd =>
      inner t among (congrArg Token.kind isEnd)
  have leaves : Leaves (Cursor.ofString (respelled all)) (spacedTexts all) :=
    ⟨rfl, .inl String.toList_ofList⟩
  rw [Cursor.tokens, readAll_spacedTexts others leaves (Nat.lt_succ_self _) false,
    List.map_append, List.map_singleton, isBare]

/-- A comment with a carriage return in it, numbers with a sign or a point in front, marks of two
characters and a string between triples of quotes. -/
theorem respelled_read_back_shapes :
    ∃ (text : String) (tokens : List Token) (ending : Token),
      text = "#\ra\n-12**.5e1\r'''x\"'''>=<>\\\n~true" ∧ tokens.length = 10 ∧
      ((Cursor.ofString text).tokens false).1 = (tokens ++ [ending]).map .ok ∧
      ((Cursor.ofString (respelled tokens)).tokens false).1.map placeless =
        (tokens ++ [ending]).map (.ok ·.bare) := by
  let text := "#\ra\n-12**.5e1\r'''x\"'''>=<>\\\n~true"
  let all := ((Cursor.ofString text).tokens false).1.filterMap Except.toOption
  have read : ((Cursor.ofString text).tokens false).1 =
      (all.dropLast ++ [all.getLast (by decide +kernel)]).map .ok := by
    decide +kernel
  exact ⟨text, all.dropLast, _, rfl, by decide +kernel, read, respelled_read_back read⟩

end LazyConfig.Token
