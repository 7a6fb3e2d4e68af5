import LazyConfig.Proofs.Token.Extent
import Mathlib.Data.List.Induction
import Mathlib.Data.List.TakeWhile
import Mathlib.Data.Nat.Find

/-!
# Tokens and their places in the text

A text is read from its first character to its end, one token or one error after another. The span
of a token is where its characters stand: a line counts the line feeds before a character, a column
the characters since the last of them. Tokens stand one behind the other, and what is left between
them is blank, ends a line, goes on with one, or is a carriage return in a comment.
-/

namespace LazyConfig

/-! ### Locations of characters -/

namespace Location

/-- The location of a character of a text by the number of characters before it. -/
def ofOffset (text : List Char) (offset : Nat) : Location :=
  ⟨1 + (text.take offset).count '\n',
    1 + ((text.take offset).reverse.takeWhile (· ≠ '\n')).length⟩

theorem advance_eq (text : List Char) :
    ({} : Location).advance text =
      ⟨1 + text.count '\n', 1 + (text.reverse.takeWhile (· ≠ '\n')).length⟩ := by
  induction text using List.reverseRecOn with
  | nil => rfl
  | append_singleton text c ih =>
    rw [advance_append, ih, advance_cons, advance_nil, after]
    by_cases lineFeed : c = '\n'
    · subst lineFeed
      simp [nextLine, List.count_append, Nat.add_assoc]
    · simp [lineFeed, List.count_append, Nat.add_comm]

theorem advance_take (text : List Char) (offset : Nat) :
    ({} : Location).advance (text.take offset) = ofOffset text offset :=
  advance_eq _

/-- Reading on from a character of a text leads to a later one. -/
theorem advance_ofOffset (text : List Char) (offset count : Nat) :
    (ofOffset text offset).advance ((text.drop offset).take count) =
      ofOffset text (offset + count) := by
  rw [← advance_take, ← advance_take, ← advance_append, List.take_add]

/-- Behind the end of a text there are no further locations. -/
theorem ofOffset_of_length_le {text : List Char} {offset : Nat} (behind : text.length ≤ offset) :
    ofOffset text offset = ofOffset text text.length := by
  simp [ofOffset, List.take_of_length_le behind]

/-- Later characters have later locations. -/
theorem ofOffset_lt {text : List Char} {first second : Nat} (order : first < second)
    (inside : second ≤ text.length) : ofOffset text first < ofOffset text second := by
  obtain ⟨count, rfl⟩ := Nat.exists_eq_add_of_lt order
  rw [Nat.add_assoc, ← advance_ofOffset]
  refine lt_advance _ fun none => ?_
  have length := congrArg List.length none
  simp only [List.length_take, List.length_drop, List.length_nil] at length
  omega

end Location

namespace Token

/-! ### Places -/

/-- The token takes the characters of a text from one place up to another. -/
structure Occupies (text : List Char) (t : Token) (first beyond : Nat) : Prop where
  some : first < beyond
  inside : beyond ≤ text.length
  start : t.span.start = Location.ofOffset text first
  stop : t.span.stop = Location.ofOffset text (beyond - 1)
  slice : t.kind ≠ .newline → t.text.toList = (text.drop first).take (beyond - first)

/-- A comment with a character behind it in the same line. -/
structure Comments (text : List Char) (t : Token) (offset : Nat) : Prop where
  isComment : t.kind = .newline ∧ t.text.toList.head? = some '#'
  before : t.span.stop < Location.ofOffset text offset
  line : t.span.start.line = (Location.ofOffset text offset).line

/-- A character that is part of no token, in a text with the given tokens. -/
inductive Skipped (text : List Char) (isToken : Token → Prop) (offset : Nat) : Prop where
  | blank {c : Char} (found : text[offset]? = some c) (blank : Text.isBlank c = true)
      (noLineEnd : c ≠ '\r' ∧ c ≠ '\n')
  | lineFeed (found : text[offset]? = some '\n')
  | commentReturn {t : Token} (found : text[offset]? = some '\r') (among : isToken t)
      (comment : Comments text t offset)
  | backslash (found : text[offset]? = some '\\')
      (lineEnd : text[offset + 1]? = some '\n' ∨
        text[offset + 1]? = some '\r' ∧ text[offset + 2]? = some '\n')
  /-- The carriage return between a backslash and a line feed. -/
  | continuedReturn {before : Nat} (next : offset = before + 1)
      (backslash : text[before]? = some '\\') (found : text[offset]? = some '\r')
      (lineFeed : text[offset + 1]? = some '\n')

/-- What a reading takes of a text from one place to another. -/
inductive Takes (text : List Char) (from_ : Nat) : Except Error Token → Nat → Prop where
  | token {t : Token} {first beyond to_ : Nat} (inner : t.kind ≠ .eof)
      (occupies : Occupies text t first beyond) (order : from_ ≤ first ∧ beyond ≤ to_)
      (inside : to_ ≤ text.length)
      (before : ∀ i, from_ ≤ i → i < first → Skipped text (· = t) i)
      (behind : ∀ i, beyond ≤ i → i < to_ → Skipped text (· = t) i) :
      Takes text from_ (.ok t) to_
  | ending {t : Token} (eof : t.kind = .eof) (inside : from_ ≤ text.length)
      (start : t.span.start = Location.ofOffset text text.length)
      (before : ∀ i, from_ ≤ i → i < text.length → Skipped text (· = t) i) :
      Takes text from_ (.ok t) text.length
  | error {e : Error} {to_ : Nat} (some : from_ < to_) (inside : to_ ≤ text.length) :
      Takes text from_ (.error e) to_

/-- The cursor stands at a place of a whole text. -/
structure Cursor.At (text : List Char) (here : Cursor) (offset : Nat) : Prop where
  inside : offset ≤ text.length
  rest : here.rest = text.drop offset
  location : here.location = Location.ofOffset text offset
  whole : here.fault = none

variable {text rest : List Char} {here cursor : Cursor} {offset count : Nat}

theorem getElem?_of_drop (left : text.drop offset = rest) (index : Nat) :
    text[offset + index]? = rest[index]? := by
  rw [← left, List.getElem?_drop]

theorem lt_length_of_drop {c : Char} (left : text.drop offset = c :: rest) :
    offset < text.length := by
  have length := congrArg List.length left
  simp only [List.length_drop, List.length_cons] at length
  omega

theorem Skipped.mono {isToken isOther : Token → Prop} (skipped : Skipped text isToken offset)
    (more : ∀ t, isToken t → isOther t) : Skipped text isOther offset := by
  cases skipped with
  | blank found blank noLineEnd => exact .blank found blank noLineEnd
  | lineFeed found => exact .lineFeed found
  | commentReturn found among comment => exact .commentReturn found (more _ among) comment
  | backslash found lineEnd => exact .backslash found lineEnd
  | continuedReturn next backslash found lineFeed =>
    exact .continuedReturn next backslash found lineFeed

/-- Characters that are skipped before a reading belong to it. -/
theorem Takes.after {result : Except Error Token} {start to_ : Nat}
    (takes : Takes text start result to_) (order : offset ≤ start)
    (skipped : ∀ i, offset ≤ i → i < start → Skipped text (fun _ => False) i) :
    Takes text offset result to_ := by
  have earlier {t : Token} {limit : Nat}
      (before : ∀ i, start ≤ i → i < limit → Skipped text (· = t) i) (i : Nat)
      (from_ : offset ≤ i) (upTo : i < limit) : Skipped text (· = t) i := by
    by_cases skip : i < start
    · exact (skipped i from_ skip).mono fun _ none => none.elim
    · exact before i (Nat.le_of_not_lt skip) upTo
  cases takes with
  | token inner occupies between inside before behind =>
    exact .token inner occupies ⟨order.trans between.1, between.2⟩ inside (earlier before) behind
  | ending eof inside start before =>
    exact .ending eof (order.trans inside) start (earlier before)
  | error some inside => exact .error (order.trans_lt some) inside

theorem Takes.le_length {result : Except Error Token} {to_ : Nat}
    (takes : Takes text offset result to_) : to_ ≤ text.length := by
  cases takes with
  | token _ _ _ inside => exact inside
  | ending => exact le_rfl
  | error _ inside => exact inside

namespace Cursor

theorem At.skip (place : here.At text offset) (count : Nat) :
    (here.skip count).At text (min (offset + count) text.length) where
  inside := Nat.min_le_right _ _
  rest := by
    rw [Cursor.skip, place.rest, List.drop_drop]
    rcases Nat.le_total (offset + count) text.length with fits | beyond
    · rw [Nat.min_eq_left fits]
    · rw [Nat.min_eq_right beyond, List.drop_length, List.drop_eq_nil_of_le beyond]
  location := by
    rw [Cursor.skip, place.location, place.rest, Location.advance_ofOffset]
    rcases Nat.le_total (offset + count) text.length with fits | beyond
    · rw [Nat.min_eq_left fits]
    · rw [Nat.min_eq_right beyond, Location.ofOffset_of_length_le beyond]
  whole := place.whole

theorem At.skip_of_le (place : here.At text offset) (fits : offset + count ≤ text.length) :
    (here.skip count).At text (offset + count) := by
  simpa only [Nat.min_eq_left fits] using place.skip count

/-- The characters behind a cursor are those that a token takes which starts there. -/
theorem At.occupies (place : here.At text offset) (some : 0 < count)
    (fits : offset + count ≤ text.length) {t : Token} (span : t.span = here.spanOf count)
    (slice : t.kind ≠ .newline → t.text.toList = here.rest.take count) :
    Occupies text t offset (offset + count) where
  some := Nat.lt_add_of_pos_right some
  inside := fits
  start := by rw [span, spanOf, place.location]
  stop := by
    have length : ((text.drop offset).take count).length = count := by
      rw [List.length_take, List.length_drop]
      omega
    rw [span, spanOf, Location.lastOf, place.location, place.rest, List.dropLast_eq_take, length,
      List.take_take, Nat.min_eq_left (Nat.sub_le _ _), Location.advance_ofOffset,
      Nat.add_sub_assoc some]
  slice := by
    rw [Nat.add_sub_cancel_left, ← place.rest]
    exact slice

end Cursor

/-! ### One reading -/

/-- A token that starts with the character at hand. -/
theorem takes_solid (place : here.At text offset) {c : Char} (isRest : here.rest = c :: rest) :
    ∃ to_, Takes text offset (solid here c rest).result to_ ∧
      (solid here c rest).behind.At text to_ := by
  have left : text.drop offset = c :: rest := place.rest.symm.trans isRest
  have length := congrArg List.length left
  rw [List.length_drop, List.length_cons] at length
  unfold solid
  cases read : lexeme c rest with
  | error misread =>
    have some := (lexeme_misread read).some
    exact ⟨_, .error (by omega) (Nat.min_le_right _ _), place.skip _⟩
  | ok found =>
    have within := lexeme_within read
    have some := lexeme_length read
    have fits : offset + found.length ≤ text.length := by
      have := within.fits
      omega
    refine ⟨_, .token within.inner (place.occupies some fits rfl ?_) ⟨le_rfl, le_rfl⟩ fits ?_ ?_,
      place.skip_of_le fits⟩
    · intro
      rw [isRest]
      exact String.toList_ofList
    · intro i from_ upTo
      exact absurd from_ (Nat.not_le_of_lt upTo)
    · intro i from_ upTo
      exact absurd from_ (Nat.not_le_of_lt upTo)

/-- The last characters of a list that all are of a kind. -/
theorem getElem?_of_dropWhile_reverse (isLast : Char → Bool) {body : List Char} {index : Nat}
    {c : Char} (found : body[index]? = some c)
    (behind : (body.reverse.dropWhile isLast).length ≤ index) : isLast c = true := by
  have split : body = (body.reverse.dropWhile isLast).reverse ++
      (body.reverse.takeWhile isLast).reverse := by
    rw [← List.reverse_append, List.takeWhile_append_dropWhile, List.reverse_reverse]
  rw [split, List.getElem?_append_right (by simpa using behind)] at found
  have among := List.mem_of_getElem? found
  exact List.mem_takeWhile_imp (List.mem_reverse.mp among)

/-- Characters behind a place that are no line feeds stand in its line. -/
theorem line_of_not_mem (noFeed : '\n' ∉ (text.drop offset).take count) :
    (Location.ofOffset text (offset + count)).line = (Location.ofOffset text offset).line := by
  simp only [Location.ofOffset, List.take_add, List.count_append, List.count_eq_zero.mpr noFeed,
    Nat.add_zero]

/-- The character behind all that are no line feeds is one. -/
theorem eq_of_getElem?_length_takeWhile {c : Char}
    (found : rest[(rest.takeWhile (· ≠ '\n')).length]? = some c) : c = '\n' := by
  induction rest with
  | nil => cases found
  | cons first rest ih =>
    by_cases lineFeed : first = '\n'
    · subst lineFeed
      simpa [eq_comm] using found
    · simp only [List.takeWhile_cons, ne_eq, lineFeed, not_false_eq_true, decide_true, if_true,
        List.length_cons, List.getElem?_cons_succ] at found
      exact ih (by simpa using found)

/-- The span of a comment ends with its last character that is no carriage return; what follows up
to the end of the line belongs to no token. -/
theorem takes_comment (place : here.At text offset) (isRest : here.rest = '#' :: rest) :
    ∃ to_, Takes text offset (comment here rest).result to_ ∧
      (comment here rest).behind.At text to_ := by
  have left : text.drop offset = '#' :: rest := place.rest.symm.trans isRest
  have length := congrArg List.length left
  rw [List.length_drop, List.length_cons] at length
  let body := '#' :: rest.takeWhile (· ≠ '\n')
  let visible := (body.reverse.dropWhile (· = '\r')).length
  have isBody : (text.drop offset).take body.length = body := by
    rw [left]
    simp only [body, List.length_cons, List.take_succ_cons, List.cons.injEq, true_and]
    exact (List.prefix_iff_eq_take.mp (List.takeWhile_prefix _)).symm
  have noFeed : '\n' ∉ body := by
    intro among
    rcases List.mem_cons.mp among with same | among
    · cases same
    · simpa using List.mem_takeWhile_imp among
  have shorter : body.length ≤ rest.length + 1 :=
    Nat.succ_le_succ (List.takeWhile_sublist _).length_le
  have visible_le : visible ≤ body.length := by
    have := (List.dropWhile_sublist (· = '\r') (l := body.reverse)).length_le
    rwa [List.length_reverse] at this
  have visible_pos : 0 < visible := by
    by_contra none
    have isFirst : body[0]? = some '#' := rfl
    have isReturn := getElem?_of_dropWhile_reverse (· = '\r') isFirst
      (by simpa [visible] using none)
    simp at isReturn
  have fits : offset + visible ≤ text.length := by omega
  have occupies : Occupies text ⟨.newline, String.ofList (body.filter (· ≠ '\r')), .absent,
      here.spanOf visible⟩ offset (offset + visible) :=
    place.occupies visible_pos fits rfl fun no => absurd rfl no
  refine ⟨_, .token (by simp) occupies ⟨le_rfl, ?_⟩ (Nat.min_le_right _ _)
    (fun i from_ upTo => absurd from_ (Nat.not_le_of_lt upTo)) ?_, place.skip (body.length + 1)⟩
  · omega
  · intro i from_ upTo
    obtain ⟨index, rfl⟩ := Nat.exists_eq_add_of_le (show offset ≤ i by omega)
    by_cases inBody : index < body.length
    · -- behind what is shown there are only carriage returns
      obtain ⟨c, found⟩ : ∃ c, body[index]? = some c := ⟨_, List.getElem?_eq_getElem inBody⟩
      have isReturn := getElem?_of_dropWhile_reverse (· = '\r') found (by omega)
      obtain rfl : c = '\r' := by simpa using isReturn
      refine .commentReturn ?_ rfl ⟨⟨rfl, by simp⟩, ?_, ?_⟩
      · rw [getElem?_of_drop rfl, ← found, ← isBody, List.getElem?_take_of_lt inBody]
      · exact occupies.stop ▸ Location.ofOffset_lt (by omega) (by omega)
      · rw [occupies.start, line_of_not_mem fun among => noFeed ?_]
        rw [← isBody]
        exact List.take_subset_take_left _ inBody.le among
    · -- the line feed that ends the comment
      obtain rfl : index = body.length := by omega
      obtain ⟨c, found⟩ : ∃ c, text[offset + body.length]? = some c :=
        ⟨_, List.getElem?_eq_getElem (by omega)⟩
      have ends := found
      rw [getElem?_of_drop left, List.length_cons, List.getElem?_cons_succ] at ends
      exact .lineFeed (found.trans (congrArg some (eq_of_getElem?_length_takeWhile ends)))

/-- A line end takes one character or two, the first of which makes its span. -/
theorem takes_lineEnd (place : here.At text offset) (positive : 0 < count)
    (fits : offset + count ≤ text.length) (peeks : Bool)
    (feeds : count = 1 ∨ count = 2 ∧ text[offset + 1]? = some '\n') :
    ∃ to_, Takes text offset (lineEnd here count peeks).result to_ ∧
      (lineEnd here count peeks).behind.At text to_ := by
  have occupies : Occupies text ⟨.newline, "\n", .absent, here.spanOf 1⟩ offset (offset + 1) :=
    place.occupies Nat.one_pos (by omega) rfl fun no => absurd rfl no
  refine ⟨_, .token (by simp) occupies ⟨le_rfl, by omega⟩ fits
    (fun i from_ upTo => absurd from_ (Nat.not_le_of_lt upTo)) ?_, place.skip_of_le fits⟩
  intro i from_ upTo
  rcases feeds with rfl | ⟨rfl, lineFeed⟩
  · omega
  · obtain rfl : i = offset + 1 := by omega
    exact .lineFeed lineFeed

theorem takes_strayBackslash (place : here.At text offset) {c : Char}
    (isRest : here.rest = c :: rest) (count : Nat) :
    ∃ to_, Takes text offset (strayBackslash here count).result to_ ∧
      (strayBackslash here count).behind.At text to_ := by
  have inside := lt_length_of_drop (place.rest.symm.trans isRest)
  exact ⟨_, .error (by omega) (Nat.min_le_right _ _), place.skip (count + 1)⟩

/-- The place behind the next characters. -/
theorem behind_of_drop (first : List Char) (inside : offset ≤ text.length)
    (left : text.drop offset = first ++ rest) :
    text.drop (offset + first.length) = rest ∧
      (Location.ofOffset text offset).advance first =
        Location.ofOffset text (offset + first.length) ∧
      offset + first.length ≤ text.length := by
  have length := congrArg List.length left
  rw [List.length_drop, List.length_append] at length
  refine ⟨?_, ?_, by omega⟩
  · rw [← List.drop_drop, left, List.drop_left]
  · rw [← Location.advance_ofOffset, left, List.take_left]

/-- Blanks and continued lines are skipped, and the token or the error behind them is read. -/
theorem nextFrom_takes {location : Location} (left : text.drop offset = rest)
    (isLocation : location = Location.ofOffset text offset) (inside : offset ≤ text.length)
    (whole : cursor.fault = none) :
    ∃ to_, Takes text offset (nextFrom cursor location rest).result to_ ∧
      (nextFrom cursor location rest).behind.At text to_ := by
  have place {rest : List Char} {offset : Nat} {location : Location}
      (left : text.drop offset = rest) (isLocation : location = Location.ofOffset text offset)
      (inside : offset ≤ text.length) : { cursor with rest, location }.At text offset :=
    ⟨inside, left.symm, isLocation, whole⟩
  fun_induction nextFrom cursor location rest generalizing offset with
  | case1 location =>
    have atEnd : offset = text.length :=
      le_antisymm inside (by simpa [List.drop_eq_nil_iff] using left)
    subst atEnd
    refine ⟨_, .ending rfl le_rfl isLocation fun i from_ upTo =>
      absurd from_ (Nat.not_le_of_lt upTo), place left isLocation inside⟩
  | case2 location tail => exact takes_comment (place left isLocation inside) rfl
  | case3 location tail _ =>
    exact takes_lineEnd (place left isLocation inside) Nat.one_pos (lt_length_of_drop left) _
      (.inl rfl)
  | case4 location tail feeds =>
    have second : text[offset + 1]? = some '\n' := by
      rw [getElem?_of_drop left, List.getElem?_cons_succ, ← List.head?_eq_getElem?, feeds]
    refine takes_lineEnd (place left isLocation inside) Nat.two_pos ?_ _ (.inr ⟨rfl, second⟩)
    exact (List.getElem?_eq_some_iff.mp second).1
  | case5 location tail _ _ _ =>
    exact takes_lineEnd (place left isLocation inside) Nat.one_pos (lt_length_of_drop left) _
      (.inl rfl)
  | case6 location tail _ _ _ ih =>
    obtain ⟨behind, isBehind, fits⟩ := behind_of_drop ['\\', '\n'] inside left
    obtain ⟨to_, takes, ends⟩ := ih behind (isLocation ▸ isBehind) fits
    refine ⟨to_, takes.after (Nat.le_add_right _ _) fun i from_ upTo => ?_, ends⟩
    rcases (show i = offset ∨ i = offset + 1 by simp at upTo; omega) with rfl | rfl
    · exact .backslash (getElem?_of_drop left 0) (.inl (getElem?_of_drop left 1))
    · exact .lineFeed (getElem?_of_drop left 1)
  | case7 location tail _ _ _ ih =>
    obtain ⟨behind, isBehind, fits⟩ := behind_of_drop ['\\', '\r', '\n'] inside left
    obtain ⟨to_, takes, ends⟩ := ih behind (isLocation ▸ isBehind) fits
    refine ⟨to_, takes.after (Nat.le_add_right _ _) fun i from_ upTo => ?_, ends⟩
    rcases (show i = offset ∨ i = offset + 1 ∨ i = offset + 2 by simp at upTo; omega) with
      rfl | rfl | rfl
    · exact .backslash (getElem?_of_drop left 0)
        (.inr ⟨getElem?_of_drop left 1, getElem?_of_drop left 2⟩)
    · exact .continuedReturn rfl (getElem?_of_drop left 0) (getElem?_of_drop left 1)
        (getElem?_of_drop left 2)
    · exact .lineFeed (getElem?_of_drop left 2)
  | case8 => exact takes_strayBackslash (place left isLocation inside) rfl 2
  | case9 => exact takes_strayBackslash (place left isLocation inside) rfl 1
  | case10 location c tail _ noFeed noReturn _ blank ih =>
    obtain ⟨behind, isBehind, fits⟩ := behind_of_drop [c] inside left
    obtain ⟨to_, takes, ends⟩ := ih behind (isLocation ▸ isBehind) fits
    refine ⟨to_, takes.after (Nat.le_add_right _ _) fun i from_ upTo => ?_, ends⟩
    obtain rfl : i = offset := by simp at upTo; omega
    exact .blank (getElem?_of_drop left 0) blank ⟨noReturn, noFeed⟩
  | case11 location c tail _ _ _ _ notBlank =>
    exact takes_solid (place left isLocation inside) rfl

theorem next_takes (place : here.At text offset) :
    ∃ to_, Takes text offset (next here).1 to_ ∧ (next here).2.At text to_ := by
  rw [next_of_fault_eq_none place.whole]
  exact nextFrom_takes place.rest.symm place.location place.inside place.whole

/-! ### Readings one after the other -/

/-- The cursor behind so many readings. -/
def Cursor.behind (here : Cursor) : Nat → Cursor
  | 0 => here
  | count + 1 => (next (here.behind count)).2

/-- What the reading after so many others gives, errors among them. -/
def Cursor.reading (here : Cursor) (count : Nat) : Except Error Token :=
  (next (here.behind count)).1

/-- How many characters so many readings have taken. -/
def Cursor.taken (here : Cursor) (count : Nat) : Nat :=
  here.rest.length - (here.behind count).rest.length

variable {string : String}

theorem taken_eq (place : ((Cursor.ofString string).behind count).At string.toList offset) :
    (Cursor.ofString string).taken count = offset := by
  have := place.inside
  rw [Cursor.taken, place.rest, List.length_drop]
  change string.toList.length - _ = _
  omega

theorem behind_at (string : String) (count : Nat) :
    ((Cursor.ofString string).behind count).At string.toList
      ((Cursor.ofString string).taken count) := by
  suffices ∃ offset, ((Cursor.ofString string).behind count).At string.toList offset by
    obtain ⟨offset, place⟩ := this
    rwa [taken_eq place]
  induction count with
  | zero => exact ⟨0, Nat.zero_le _, rfl, rfl, rfl⟩
  | succ count ih =>
    obtain ⟨offset, place⟩ := ih
    obtain ⟨to_, -, ends⟩ := next_takes place
    exact ⟨to_, ends⟩

theorem reading_takes (string : String) (count : Nat) :
    Takes string.toList ((Cursor.ofString string).taken count)
      ((Cursor.ofString string).reading count) ((Cursor.ofString string).taken (count + 1)) := by
  obtain ⟨to_, takes, ends⟩ := next_takes (behind_at string count)
  have isTaken : (Cursor.ofString string).taken (count + 1) = to_ := taken_eq ends
  rwa [isTaken]

theorem Takes.order {result : Except Error Token} {to_ : Nat}
    (takes : Takes text offset result to_) : offset ≤ to_ := by
  cases takes with
  | token _ occupies between => exact between.1.trans (occupies.some.le.trans between.2)
  | ending _ inside => exact inside
  | error some => exact some.le

/-- Whether a reading gives the end token. -/
def IsEnd (result : Except Error Token) : Prop := ∃ t, result = .ok t ∧ t.kind = .eof

theorem Takes.lt_of_not_end {result : Except Error Token} {to_ : Nat}
    (takes : Takes text offset result to_) (goesOn : ¬IsEnd result) : offset < to_ := by
  cases takes with
  | token _ occupies between => exact between.1.trans_lt (occupies.some.trans_le between.2)
  | ending eof => exact absurd ⟨_, rfl, eof⟩ goesOn
  | error some => exact some

theorem taken_mono (string : String) : Monotone (Cursor.ofString string).taken :=
  monotone_nat_of_le_succ fun count => (reading_takes string count).order

/-- Readings that do not reach the end take at least a character each. -/
theorem le_taken {string : String} (count : Nat)
    (goesOn : ∀ n < count, ¬IsEnd ((Cursor.ofString string).reading n)) :
    count ≤ (Cursor.ofString string).taken count := by
  induction count with
  | zero => exact Nat.zero_le _
  | succ count ih =>
    have earlier := ih fun n before => goesOn n (before.trans (Nat.lt_succ_self count))
    exact earlier.trans_lt
      ((reading_takes string count).lt_of_not_end (goesOn count (Nat.lt_succ_self count)))

/-- There is a first reading that gives the end token, and no more of them before it than there are
characters. -/
theorem exists_end (string : String) :
    ∃ count ≤ string.toList.length, IsEnd ((Cursor.ofString string).reading count) ∧
      ∀ n < count, ¬IsEnd ((Cursor.ofString string).reading n) := by
  classical
  have ends : ∃ n, IsEnd ((Cursor.ofString string).reading n) := by
    by_contra never
    have goesOn := not_exists.mp never
    have many := le_taken (string.toList.length + 1) fun n _ => goesOn n
    have few := (behind_at string (string.toList.length + 1)).inside
    omega
  refine ⟨Nat.find ends, ?_, Nat.find_spec ends, fun n before => Nat.find_min ends before⟩
  exact (le_taken _ fun n before => Nat.find_min ends before).trans (behind_at string _).inside

/-- At the end of the text every reading gives the end token. -/
theorem isEnd_of_at_end {string : String} {count : Nat}
    (atEnd : (Cursor.ofString string).taken count = string.toList.length) :
    IsEnd ((Cursor.ofString string).reading count) := by
  have place := behind_at string count
  have nothing : ((Cursor.ofString string).behind count).rest = [] := by
    rw [place.rest, atEnd, List.drop_length]
  rw [Cursor.reading, next_of_fault_eq_none place.whole, nothing]
  exact ⟨_, rfl, rfl⟩

theorem taken_of_isEnd {string : String} {count : Nat}
    (ends : IsEnd ((Cursor.ofString string).reading count)) :
    (Cursor.ofString string).taken (count + 1) = string.toList.length := by
  have takes := reading_takes string count
  obtain ⟨t, isToken, eof⟩ := ends
  rw [isToken] at takes
  generalize (Cursor.ofString string).taken (count + 1) = to_ at takes ⊢
  cases takes with
  | token inner => exact absurd eof inner
  | ending => rfl

/-- Once the end has been reached, nothing else is read. -/
theorem isEnd_of_le {string : String} {first later : Nat}
    (ends : IsEnd ((Cursor.ofString string).reading first)) (order : first ≤ later) :
    IsEnd ((Cursor.ofString string).reading later) := by
  rcases order.eq_or_lt with rfl | behind
  · exact ends
  · refine isEnd_of_at_end (le_antisymm (behind_at string later).inside ?_)
    exact (taken_of_isEnd ends).ge.trans (taken_mono string behind)

/-! ### The readings of a text -/

/-- A token of a text: the end token stands at its end; any other one takes characters of the text,
the first and the last of which its span names, and a token that ends no line is written as these
characters. -/
def Stands (text : List Char) (t : Token) : Prop :=
  if t.kind = .eof then t.span.start = Location.ofOffset text text.length
  else ∃ first beyond, Occupies text t first beyond

theorem stands_of_takes {t : Token} {to_ : Nat} (takes : Takes text offset (.ok t) to_) :
    Stands text t := by
  unfold Stands
  cases takes with
  | token inner occupies =>
    rw [if_neg inner]
    exact ⟨_, _, occupies⟩
  | ending eof _ start =>
    rw [if_pos eof]
    exact start

/-- A token stands before every one that is read behind it. -/
theorem stop_lt_start {a b : Token} {first middle second last : Nat}
    (takesFirst : Takes text first (.ok a) middle) (takesSecond : Takes text second (.ok b) last)
    (inner : a.kind ≠ .eof) (order : middle ≤ second) : a.span.stop < b.span.start := by
  cases takesFirst with
  | ending eof => exact absurd eof inner
  | token _ occupies between inside =>
    have some := occupies.some
    rw [occupies.stop]
    cases takesSecond with
    | token _ other otherBetween =>
      have otherSome := other.some
      have otherInside := other.inside
      rw [other.start]
      exact Location.ofOffset_lt (by omega) (by omega)
    | ending _ _ start =>
      rw [start]
      exact Location.ofOffset_lt (by omega) le_rfl

/-- A character that a reading takes is part of its token or skipped. -/
theorem covered_or_skipped {t : Token} {to_ i : Nat} (takes : Takes text offset (.ok t) to_)
    (from_ : offset ≤ i) (upTo : i < to_) :
    (t.kind ≠ .eof ∧ t.span.start ≤ Location.ofOffset text i ∧
      Location.ofOffset text i ≤ t.span.stop) ∨ Skipped text (· = t) i := by
  cases takes with
  | ending _ _ _ before => exact .inr (before i from_ upTo)
  | @token _ first beyond _ inner occupies between inside before behind =>
    have order {m n : Nat} (le : m ≤ n) (inside : n ≤ text.length) :
        Location.ofOffset text m ≤ Location.ofOffset text n := by
      rcases le.eq_or_lt with rfl | lt
      · exact le_rfl
      · exact (Location.ofOffset_lt lt inside).le
    by_cases early : i < first
    · exact .inr (before i from_ early)
    by_cases late : beyond ≤ i
    · exact .inr (behind i late upTo)
    have fits := occupies.inside
    rw [occupies.start, occupies.stop]
    exact .inl ⟨inner, order (by omega) (by omega), order (by omega) (by omega)⟩

theorem takes_of_reading {string : String} {n : Nat} {t : Token}
    (isToken : (Cursor.ofString string).reading n = .ok t) :
    Takes string.toList ((Cursor.ofString string).taken n) (.ok t)
      ((Cursor.ofString string).taken (n + 1)) :=
  isToken ▸ reading_takes string n

/-- Every character of a text is taken by a reading. -/
theorem exists_reading {string : String} {count i : Nat}
    (all : (Cursor.ofString string).taken (count + 1) = string.toList.length)
    (inside : i < string.toList.length) :
    ∃ n ≤ count, (Cursor.ofString string).taken n ≤ i ∧
      i < (Cursor.ofString string).taken (n + 1) := by
  have behind : ∃ n, i < (Cursor.ofString string).taken n := ⟨count + 1, all ▸ inside⟩
  have found := Nat.find_spec behind
  cases first : Nat.find behind with
  | zero =>
    rw [first, Cursor.taken, Cursor.behind, Nat.sub_self] at found
    exact absurd found (Nat.not_lt_zero i)
  | succ n =>
    rw [first] at found
    have earlier := Nat.find_min behind (show n < Nat.find behind by omega)
    have least := Nat.find_min' behind (all ▸ inside)
    exact ⟨n, by omega, Nat.le_of_not_lt earlier, found⟩

/-- A text is read to its end by at most one reading more than it has characters, errors among
them, and each later reading gives the end token again. Every token stands where its span says, and
each before the next ones. If there is no error, every character that is part of no token is blank,
ends a line, goes on with one, or is a carriage return in a comment. -/
theorem readings_stand (string : String) :
    let text := string.toList
    let reading := (Cursor.ofString string).reading
    ∃ count ≤ text.length,
      (∀ n, IsEnd (reading n) ↔ count ≤ n) ∧
      (∀ n t, reading n = .ok t → Stands text t) ∧
      (∀ n later a b, n < count → n < later → reading n = .ok a → reading later = .ok b →
        a.span.stop < b.span.start) ∧
      ((∀ n e, reading n ≠ .error e) → ∀ i < text.length,
        (∃ n < count, ∃ t, reading n = .ok t ∧ t.span.start ≤ Location.ofOffset text i ∧
          Location.ofOffset text i ≤ t.span.stop) ∨
        Skipped text (fun t => ∃ n, reading n = .ok t) i) := by
  intro text reading
  obtain ⟨count, few, ends, before⟩ := exists_end string
  refine ⟨count, few, fun n => ⟨fun isEnd => ?_, isEnd_of_le ends⟩, ?_, ?_, ?_⟩
  · exact Nat.le_of_not_lt fun earlier => before n earlier isEnd
  · exact fun n t isToken => stands_of_takes (takes_of_reading isToken)
  · intro n later a b inner order isFirst isSecond
    exact stop_lt_start (takes_of_reading isFirst) (takes_of_reading isSecond)
      (fun eof => before n inner ⟨a, isFirst, eof⟩) (taken_mono string order)
  · intro whole i inside
    obtain ⟨n, readings, from_, upTo⟩ := exists_reading (taken_of_isEnd ends) inside
    obtain ⟨t, isToken⟩ : ∃ t, reading n = .ok t := by
      cases result : reading n with
      | error e => exact absurd result (whole n e)
      | ok t => exact ⟨t, rfl⟩
    rcases covered_or_skipped (takes_of_reading isToken) from_ upTo with
      ⟨inner, covered⟩ | skipped
    · refine .inl ⟨n, ?_, t, isToken, covered⟩
      by_contra late
      obtain ⟨other, same, eof⟩ := isEnd_of_le ends (Nat.le_of_not_lt late)
      cases isToken.symm.trans same
      exact inner eof
    · exact .inr (skipped.mono fun other same => ⟨n, same ▸ isToken⟩)

end Token

end LazyConfig
