import LazyConfig.Text.Escape
import LazyConfig.Token.Error
import LazyConfig.Proofs.Text.Digit

/-!
# Escapes and the texts that they write

A text is written piece by piece: a character by itself, or by an escape that denotes it. Reading a
written text back gives the text. What can be read back is written in this way, but for one thing:
the last digit of a field may be a line feed, which is taken for no digit at all. What cannot be
read back holds a malformed escape, and the first of these is reported by its distance from the
escape before it, not from the start.
-/

namespace LazyConfig.Text

/-! ### The format -/

/-- The letters and marks that stand for a character behind a backslash. -/
def shortEscapes : List (Char × Char) :=
  [('a', '\x07'), ('b', '\x08'), ('f', '\x0c'), ('n', '\n'), ('r', '\r'), ('t', '\t'),
    ('v', '\x0b'), ('\\', '\\'), ('\'', '\''), ('"', '"')]

/-- The letters that a field of hexadecimal digits follows, and the length of the field. -/
def numericEscapes : List (Char × Nat) := [('x', 2), ('X', 2), ('u', 4), ('U', 8)]

/-- What stands behind the backslash of a complete escape, and the character that it denotes. -/
inductive Escape : List Char → Char → Prop
  | short {mark c : Char} (listed : (mark, c) ∈ shortEscapes) : Escape [mark] c
  | numeric {mark c : Char} {digits : List Char} (listed : (mark, digits.length) ∈ numericEscapes)
      (writes : WritesHex digits c.toNat) : Escape (mark :: digits) c

/-- What is accepted behind a backslash: a complete escape, or a field with a line feed for its last
digit. -/
inductive Accepted : List Char → Char → Prop
  | complete {body : List Char} {c : Char} (isEscape : Escape body c) : Accepted body c
  | cut {mark c : Char} {digits : List Char} (listed : (mark, digits.length + 1) ∈ numericEscapes)
      (writes : WritesHex digits c.toNat) : Accepted (mark :: (digits ++ ['\n'])) c

/-- A text and how it is written: each character stands for itself, if it may, or is denoted by an
escape. -/
inductive Spelt (plain : Char → Prop) (escape : List Char → Char → Prop) :
    List Char → List Char → Prop
  | nil : Spelt plain escape [] []
  | plain {c : Char} {written text : List Char} (isPlain : plain c)
      (others : Spelt plain escape written text) : Spelt plain escape (c :: written) (c :: text)
  | escape {body : List Char} {c : Char} {written text : List Char} (isEscape : escape body c)
      (others : Spelt plain escape written text) :
      Spelt plain escape ('\\' :: (body ++ written)) (c :: text)

/-- Nothing that a text begins with is accepted behind a backslash. -/
def Unaccepted (rest : List Char) : Prop := ∀ body c, Accepted body c → ¬body <+: rest

/-- The start of a text, or a part of it up to the end of an escape. -/
inductive UpToEscape : List Char → Prop
  | start : UpToEscape []
  | escape {written text body : List Char} {c : Char}
      (before : Spelt (· ≠ '\\') Accepted written text) (isEscape : Accepted body c) :
      UpToEscape (written ++ '\\' :: body)

variable {mark c : Char} {body rest digits written text : List Char}

theorem Spelt.mono {plain plain' : Char → Prop} {escape escape' : List Char → Char → Prop}
    (spelt : Spelt plain escape written text) (plains : ∀ c, plain c → plain' c)
    (escapes : ∀ body c, escape body c → escape' body c) : Spelt plain' escape' written text := by
  induction spelt with
  | nil => exact .nil
  | plain isPlain _ ih => exact .plain (plains _ isPlain) ih
  | escape isEscape _ ih => exact .escape (escapes _ _ isEscape) ih

/-- Every text can be written, if each character stands for itself or is denoted by an escape. -/
theorem exists_spelt {plain : Char → Prop} {escape : List Char → Char → Prop}
    (covers : ∀ c, plain c ∨ ∃ body, escape body c) (text : List Char) :
    ∃ written, Spelt plain escape written text := by
  induction text with
  | nil => exact ⟨[], .nil⟩
  | cons c text ih =>
    obtain ⟨written, others⟩ := ih
    obtain isPlain | ⟨body, isEscape⟩ := covers c
    · exact ⟨c :: written, .plain isPlain others⟩
    · exact ⟨'\\' :: (body ++ written), .escape isEscape others⟩

/-- What stands behind the first character of an escape are digits. -/
theorem Escape.exists_digits (isEscape : Escape body c) :
    ∃ mark digits, body = mark :: digits ∧ digits.all isHexDigit := by
  cases isEscape with
  | short => exact ⟨_, [], rfl, rfl⟩
  | numeric _ writes => exact ⟨_, _, rfl, (writesHex_iff.mp writes).1⟩

/-! ### Reading one escape -/

theorem shortEscape?_eq_some_iff : shortEscape? mark = some c ↔ (mark, c) ∈ shortEscapes := by
  constructor
  · intro isShort
    unfold shortEscape? at isShort
    split at isShort <;> cases isShort <;> decide
  · intro listed
    have all : ∀ entry ∈ shortEscapes, shortEscape? entry.1 = some entry.2 := by decide
    exact all _ listed

theorem escapeDigits?_eq_some_iff {count : Nat} :
    escapeDigits? mark = some count ↔ (mark, count) ∈ numericEscapes := by
  constructor
  · intro isNumeric
    unfold escapeDigits? at isNumeric
    split at isNumeric <;> cases isNumeric <;> decide
  · intro listed
    have all : ∀ entry ∈ numericEscapes, escapeDigits? entry.1 = some entry.2 := by decide
    exact all _ listed

/-- No letter in front of digits stands for a character by itself. -/
theorem shortEscape?_of_numeric {count : Nat} (listed : (mark, count) ∈ numericEscapes) :
    shortEscape? mark = none := by
  have all : ∀ entry ∈ numericEscapes, shortEscape? entry.1 = none := by decide
  exact all _ listed

/-- A field holds a digit in front of its last place. -/
theorem two_le_of_numeric {count : Nat} (listed : (mark, count) ∈ numericEscapes) : 2 ≤ count := by
  have all : ∀ entry ∈ numericEscapes, 2 ≤ entry.2 := by decide
  exact all _ listed

theorem scalar?_eq_some_iff {code : Nat} : scalar? code = some c ↔ c.toNat = code := by
  unfold scalar?
  rw [Option.dite_none_right_eq_some]
  constructor
  · rintro ⟨valid, same⟩
    cases same
    rfl
  · rintro rfl
    have valid : c.toNat.isValidChar := c.valid
    exact ⟨valid, congrArg some (Char.toNat_inj.mp rfl)⟩

/-- A line feed is no digit. -/
theorem getLast?_ne_of_writesHex {number : Nat} (writes : WritesHex digits number) :
    digits.getLast? ≠ some '\n' := by
  intro isLast
  have allHex := (writesHex_iff.mp writes).1
  have isHex := List.all_eq_true.mp allHex '\n' (List.mem_of_getLast? isLast)
  exact absurd isHex (by decide)

theorem escapeCode?_eq_some_iff {field : List Char} {code : Nat} :
    escapeCode? field = some code ↔
      ∃ digits, digits ≠ [] ∧ WritesHex digits code ∧
        (field = digits ∨ field = digits ++ ['\n']) := by
  unfold escapeCode?
  simp only [Option.ite_none_right_eq_some, Option.some.injEq]
  constructor
  · rintro ⟨⟨notEmpty, allHex⟩, isCode⟩
    -- the digits are what is left when a line feed at the end has been dropped
    refine ⟨_, notEmpty, writesHex_iff.mpr ⟨allHex, isCode⟩, ?_⟩
    split
    case isTrue isLast =>
      refine .inr ?_
      obtain ⟨front, rfl⟩ := List.getLast?_eq_some_iff.mp isLast
      rw [List.dropLast_concat]
    case isFalse => exact .inl rfl
  · rintro ⟨digits, notEmpty, writes, rfl | rfl⟩
    · rw [if_neg (getLast?_ne_of_writesHex writes)]
      exact ⟨⟨notEmpty, (writesHex_iff.mp writes).1⟩, (writesHex_iff.mp writes).2⟩
    · rw [if_pos List.getLast?_concat, List.dropLast_concat]
      exact ⟨⟨notEmpty, (writesHex_iff.mp writes).1⟩, (writesHex_iff.mp writes).2⟩

/-- The field of a numeric escape is as long as its letter asks for. -/
theorem escape?_numeric_iff {length : Nat} (noShort : shortEscape? mark = none) :
    escape? (mark :: rest) = some (c, length) ↔
      ∃ field behind, rest = field ++ behind ∧ (mark, field.length) ∈ numericEscapes ∧
        escapeCode? field = some c.toNat ∧ field.length + 1 = length := by
  unfold escape?
  simp only [noShort, Option.bind_eq_bind, Option.bind_eq_some_iff, Option.bind_none,
    Option.pure_def, Option.ite_none_left_eq_some, Option.some.injEq, Prod.mk.injEq,
    scalar?_eq_some_iff, escapeDigits?_eq_some_iff, Nat.not_lt]
  constructor
  · rintro ⟨count, listed, enough, _, isCode, _, rfl, rfl, rfl⟩
    have exact : (rest.take count).length = count :=
      Nat.le_antisymm (List.length_take_le _ _) enough
    refine ⟨rest.take count, rest.drop count, (List.take_append_drop _ _).symm, ?_, isCode, ?_⟩
    · rwa [exact]
    · rw [exact]
  · rintro ⟨field, behind, rfl, listed, isCode, rfl⟩
    refine ⟨field.length, listed, ?_⟩
    rw [List.take_left' rfl]
    exact ⟨le_rfl, c.toNat, isCode, c, rfl, rfl, rfl⟩

theorem escape?_of_accepted (accepted : Accepted body c) (rest : List Char) :
    escape? (body ++ rest) = some (c, body.length) := by
  cases accepted with
  | complete isEscape =>
    cases isEscape with
    | short listed => simp [escape?, shortEscape?_eq_some_iff.mpr listed]
    | @numeric mark _ digits listed writes =>
      have notEmpty : digits ≠ [] := by
        rintro rfl
        exact absurd (two_le_of_numeric listed) (by decide)
      have isCode := escapeCode?_eq_some_iff.mpr ⟨digits, notEmpty, writes, .inl rfl⟩
      exact (escape?_numeric_iff (shortEscape?_of_numeric listed)).mpr
        ⟨digits, rest, rfl, listed, isCode, rfl⟩
  | @cut mark _ digits listed writes =>
    have notEmpty : digits ≠ [] := by
      rintro rfl
      exact absurd (two_le_of_numeric listed) (by decide)
    have isCode := escapeCode?_eq_some_iff.mpr ⟨digits, notEmpty, writes, .inr rfl⟩
    have long : (mark, (digits ++ ['\n']).length) ∈ numericEscapes := by simpa using listed
    exact (escape?_numeric_iff (shortEscape?_of_numeric listed)).mpr
      ⟨digits ++ ['\n'], rest, rfl, long, isCode, rfl⟩

/-- An escape is read from the head of a text exactly if it is accepted there. -/
theorem escape?_eq_some_iff {length : Nat} :
    escape? rest = some (c, length) ↔
      ∃ body behind, rest = body ++ behind ∧ body.length = length ∧ Accepted body c := by
  constructor
  · intro read
    cases rest with
    | nil => cases read
    | cons mark rest =>
      cases isShort : shortEscape? mark with
      | some denoted =>
        -- what stands behind the mark is not looked at
        simp only [escape?, isShort, Option.some.injEq, Prod.mk.injEq] at read
        obtain ⟨rfl, rfl⟩ := read
        have listed := shortEscape?_eq_some_iff.mp isShort
        exact ⟨[mark], rest, rfl, rfl, .complete (.short listed)⟩
      | none =>
        obtain ⟨field, behind, rfl, listed, isCode, rfl⟩ := (escape?_numeric_iff isShort).mp read
        refine ⟨mark :: field, behind, rfl, rfl, ?_⟩
        obtain ⟨digits, -, writes, rfl | rfl⟩ := escapeCode?_eq_some_iff.mp isCode
        · exact .complete (.numeric listed writes)
        · rw [List.length_append, List.length_singleton] at listed
          exact .cut listed writes
  · rintro ⟨body, behind, rfl, rfl, accepted⟩
    exact escape?_of_accepted accepted behind

theorem escape?_eq_none_iff : escape? rest = none ↔ Unaccepted rest := by
  constructor
  · rintro none body c accepted ⟨behind, rfl⟩
    rw [escape?_of_accepted accepted] at none
    cases none
  · intro unaccepted
    cases read : escape? rest with
    | none => rfl
    | some found =>
      obtain ⟨body, behind, rfl, -, accepted⟩ := escape?_eq_some_iff.mp read
      exact absurd (List.prefix_append body behind) (unaccepted body _ accepted)

/-! ### Reading a text -/

/-- What is left of an escape is passed over. -/
theorem unescapeFrom_skip (offset : Nat) (body rest : List Char) :
    unescapeFrom offset body.length (body ++ rest) = unescapeFrom offset 0 rest := by
  induction body with
  | nil => rfl
  | cons c body ih => exact ih

theorem unescapeFrom_plain {offset : Nat} (isPlain : c ≠ '\\') (rest : List Char) :
    unescapeFrom offset 0 (c :: rest) = (c :: ·) <$> unescapeFrom (offset + 1) 0 rest := by
  rw [unescapeFrom]
  exact if_neg isPlain

theorem unescapeFrom_accepted {offset : Nat} (accepted : Accepted body c) (rest : List Char) :
    unescapeFrom offset 0 ('\\' :: (body ++ rest)) = (c :: ·) <$> unescapeFrom 0 0 rest := by
  rw [unescapeFrom, if_pos rfl, escape?_of_accepted accepted]
  dsimp only
  rw [unescapeFrom_skip]

theorem unescapeFrom_unaccepted {offset : Nat} (unaccepted : Unaccepted rest) :
    unescapeFrom offset 0 ('\\' :: rest) = .error offset := by
  rw [unescapeFrom, if_pos rfl, escape?_eq_none_iff.mpr unaccepted]

/-- A text in the pieces that it is read in, up to an escape that is not accepted. -/
inductive Pieces : List Char → Prop
  | nil : Pieces []
  | plain {c : Char} {rest : List Char} (isPlain : c ≠ '\\') (others : Pieces rest) :
      Pieces (c :: rest)
  | escape {body : List Char} {c : Char} {rest : List Char} (accepted : Accepted body c)
      (others : Pieces rest) : Pieces ('\\' :: (body ++ rest))
  | stuck {rest : List Char} (unaccepted : Unaccepted rest) : Pieces ('\\' :: rest)

theorem pieces (written : List Char) : Pieces written := by
  -- an escape takes several characters at once
  induction length : written.length using Nat.strong_induction_on generalizing written with
  | _ length ih =>
    subst length
    cases written with
    | nil => exact .nil
    | cons c rest =>
      by_cases isPlain : c = '\\'
      · subst isPlain
        cases read : escape? rest with
        | none => exact .stuck (escape?_eq_none_iff.mp read)
        | some found =>
          obtain ⟨body, behind, rfl, -, accepted⟩ := escape?_eq_some_iff.mp read
          refine .escape accepted (ih _ ?_ behind rfl)
          simp only [List.length_cons, List.length_append]
          omega
      · exact .plain isPlain (ih _ (Nat.lt_succ_self _) rest rfl)

private theorem map_eq_ok {α β : Type} {f : α → β} {result : Except Nat α} {b : β} :
    f <$> result = .ok b ↔ ∃ a, result = .ok a ∧ f a = b := by
  cases result <;> simp [Functor.map, Except.map]

private theorem map_eq_error {α β : Type} {f : α → β} {result : Except Nat α} {index : Nat} :
    f <$> result = .error index ↔ result = .error index := by
  cases result <;> simp [Functor.map, Except.map]

/-- A written text is read back. -/
theorem unescapeFrom_of_spelt (spelt : Spelt (· ≠ '\\') Accepted written text) (offset : Nat) :
    unescapeFrom offset 0 written = .ok text := by
  induction spelt generalizing offset with
  | nil => rfl
  | plain isPlain _ ih => rw [unescapeFrom_plain isPlain, ih]; rfl
  | escape accepted _ ih => rw [unescapeFrom_accepted accepted, ih]; rfl

theorem spelt_of_unescapeFrom {offset : Nat} (read : unescapeFrom offset 0 written = .ok text) :
    Spelt (· ≠ '\\') Accepted written text := by
  induction pieces written generalizing offset text with
  | nil =>
    cases read
    exact .nil
  | plain isPlain _ ih =>
    rw [unescapeFrom_plain isPlain] at read
    obtain ⟨others, readOthers, rfl⟩ := map_eq_ok.mp read
    exact .plain isPlain (ih readOthers)
  | escape accepted _ ih =>
    rw [unescapeFrom_accepted accepted] at read
    obtain ⟨others, readOthers, rfl⟩ := map_eq_ok.mp read
    exact .escape accepted (ih readOthers)
  | stuck unaccepted =>
    rw [unescapeFrom_unaccepted unaccepted] at read
    cases read

theorem unescape_of_spelt {plain : Char → Prop} (spelt : Spelt plain Escape written text)
    (noBackslash : ∀ c, plain c → c ≠ '\\') : unescape written = .ok text :=
  unescapeFrom_of_spelt (spelt.mono noBackslash fun _ _ => .complete) 0

/-- What is read back is written as the format has it, but for fields that end in a line feed. -/
theorem unescape_ok_iff_spelt :
    unescape written = .ok text ↔ Spelt (· ≠ '\\') Accepted written text :=
  ⟨spelt_of_unescapeFrom, fun spelt => unescapeFrom_of_spelt spelt 0⟩

theorem Spelt.exists_escape {plain : Char → Prop} {escape : List Char → Char → Prop}
    (spelt : Spelt plain escape ('\\' :: rest) text) (noPlain : ¬plain '\\') :
    ∃ body c behind, rest = body ++ behind ∧ escape body c := by
  generalize start : '\\' :: rest = written at spelt
  cases spelt with
  | nil => cases start
  | plain isPlain =>
    cases start
    exact absurd isPlain noPlain
  | escape isEscape =>
    cases start
    exact ⟨_, _, _, rfl, isEscape⟩

/-- A field of one digit and a line feed is read back, although it is no escape. -/
theorem line_feed_taken_for_digit : ¬∀ written text : List Char, unescape written = .ok text →
    Spelt (· ≠ '\\') Escape written text := by
  intro law
  have spelt := law ['\\', 'x', '4', '\n'] ['\x04'] (by decide +kernel)
  obtain ⟨body, c, behind, same, isEscape⟩ := spelt.exists_escape (by decide)
  -- two digits are wanted behind the letter, and the second of them would be the line feed
  cases isEscape with
  | short listed =>
    obtain ⟨rfl, -⟩ := List.cons.inj same
    simp [shortEscapes] at listed
  | @numeric mark _ digits listed writes =>
    obtain ⟨rfl, isField⟩ := List.cons.inj same
    have two : digits.length = 2 := by simpa [numericEscapes] using listed
    have isDigits : ['4', '\n'] = digits := by
      simpa [List.take_left' two] using congrArg (List.take 2) isField
    exact getLast?_ne_of_writesHex writes (isDigits ▸ rfl)

/-! ### Where a malformed escape is reported -/

theorem Spelt.append {plain : Char → Prop} {escape : List Char → Char → Prop}
    {writtenBehind textBehind : List Char} (spelt : Spelt plain escape written text)
    (behind : Spelt plain escape writtenBehind textBehind) :
    Spelt plain escape (written ++ writtenBehind) (text ++ textBehind) := by
  induction spelt with
  | nil => exact behind
  | plain isPlain _ ih => exact .plain isPlain ih
  | escape isEscape _ ih =>
    rw [List.cons_append, List.append_assoc]
    exact .escape isEscape ih

theorem spelt_of_not_mem {escape : List Char → Char → Prop} (none : '\\' ∉ written) :
    Spelt (· ≠ '\\') escape written written := by
  induction written with
  | nil => exact .nil
  | cons c written ih =>
    obtain ⟨isPlain, noneLeft⟩ := not_or.mp (mt List.mem_cons.mpr none)
    exact .plain (Ne.symm isPlain) (ih noneLeft)

theorem UpToEscape.exists_spelt {before : List Char} (upTo : UpToEscape before) :
    ∃ text, Spelt (· ≠ '\\') Accepted before text := by
  cases upTo with
  | start => exact ⟨[], .nil⟩
  | @escape written text body c before accepted =>
    have last : Spelt (· ≠ '\\') Accepted ('\\' :: (body ++ [])) [c] := .escape accepted .nil
    rw [List.append_nil] at last
    exact ⟨_, before.append last⟩

/-- Characters that stand for themselves are counted. -/
theorem unescapeFrom_plains_error_iff {plain : List Char} (none : '\\' ∉ plain)
    {offset index : Nat} :
    unescapeFrom offset 0 (plain ++ rest) = .error index ↔
      unescapeFrom (offset + plain.length) 0 rest = .error index := by
  induction plain generalizing offset with
  | nil => rfl
  | cons c plain ih =>
    obtain ⟨isPlain, noneLeft⟩ := not_or.mp (mt List.mem_cons.mpr none)
    rw [List.cons_append, unescapeFrom_plain (Ne.symm isPlain), map_eq_error, ih noneLeft,
      List.length_cons, Nat.add_right_comm, Nat.add_assoc]

/-- Behind an escape the count starts again. -/
theorem unescapeFrom_escape_error_iff (before : Spelt (· ≠ '\\') Accepted written text)
    (accepted : Accepted body c) {offset index : Nat} :
    unescapeFrom offset 0 (written ++ '\\' :: (body ++ rest)) = .error index ↔
      unescapeFrom 0 0 rest = .error index := by
  induction before generalizing offset with
  | nil => rw [List.nil_append, unescapeFrom_accepted accepted, map_eq_error]
  | plain isPlain _ ih => rw [List.cons_append, unescapeFrom_plain isPlain, map_eq_error, ih]
  | escape other _ ih =>
    rw [List.cons_append, List.append_assoc, unescapeFrom_accepted other, map_eq_error, ih]

/-- When a malformed escape is met, the characters behind the last escape have been counted. -/
theorem exists_unaccepted {before plain : List Char} (upTo : UpToEscape before)
    (none : '\\' ∉ plain) {index : Nat}
    (failed : unescapeFrom plain.length 0 written = .error index) :
    ∃ before' plain' rest, before ++ plain ++ written = before' ++ plain' ++ '\\' :: rest ∧
      UpToEscape before' ∧ '\\' ∉ plain' ∧ Unaccepted rest ∧ index = plain'.length := by
  -- what has been read is `before ++ plain`, and an escape moves all of it to the front
  induction pieces written generalizing before plain with
  | nil => cases failed
  | @plain c rest isPlain _ ih =>
    rw [unescapeFrom_plain isPlain, map_eq_error] at failed
    have noneSoFar : '\\' ∉ plain ++ [c] := by
      simpa [none] using Ne.symm isPlain
    have counted : plain.length + 1 = (plain ++ [c]).length := by simp
    rw [counted] at failed
    obtain ⟨before', plain', rest', same, others⟩ := ih upTo noneSoFar failed
    refine ⟨before', plain', rest', ?_, others⟩
    rw [← same]
    simp
  | @escape body c rest accepted _ ih =>
    rw [unescapeFrom_accepted accepted, map_eq_error] at failed
    obtain ⟨text, spelt⟩ := upTo.exists_spelt
    have sofar := spelt.append (spelt_of_not_mem none)
    have counted : unescapeFrom ([] : List Char).length 0 rest = .error index := failed
    obtain ⟨before', plain', rest', same, others⟩ :=
      ih (.escape sofar accepted) List.not_mem_nil counted
    refine ⟨before', plain', rest', ?_, others⟩
    rw [← same]
    simp
  | @stuck rest unaccepted =>
    rw [unescapeFrom_unaccepted unaccepted] at failed
    cases failed
    exact ⟨before, plain, rest, rfl, upTo, none, unaccepted, rfl⟩

theorem unescape_eq_error_iff {index : Nat} :
    unescape written = .error index ↔
      ∃ before plain rest, written = before ++ plain ++ '\\' :: rest ∧ UpToEscape before ∧
        '\\' ∉ plain ∧ Unaccepted rest ∧ index = plain.length := by
  constructor
  · intro failed
    have counted : unescapeFrom ([] : List Char).length 0 written = .error index := failed
    exact exists_unaccepted .start List.not_mem_nil counted
  · rintro ⟨before, plain, rest, rfl, upTo, none, unaccepted, rfl⟩
    have counted : unescapeFrom 0 0 (plain ++ '\\' :: rest) = .error plain.length := by
      rw [unescapeFrom_plains_error_iff none, unescapeFrom_unaccepted unaccepted, Nat.zero_add]
    rw [List.append_assoc]
    -- from the start or behind an escape, the count begins with nothing
    cases upTo with
    | start => exact counted
    | escape spelt accepted =>
      rw [List.append_assoc, List.cons_append]
      exact (unescapeFrom_escape_error_iff spelt accepted).mpr counted

/-- A malformed escape is reported, by the number of characters between it and the escape before it
or the start of the text. -/
theorem malformed_escape_reported {message : String} :
    (unescape written).mapError (fun index => (Token.Fault.escape index).message) = .error message ↔
      ∃ before plain rest, written = before ++ plain ++ '\\' :: rest ∧ UpToEscape before ∧
        '\\' ∉ plain ∧ Unaccepted rest ∧
        message = s!"Invalid escape sequence at index {plain.length}" := by
  constructor
  · intro reported
    cases read : unescape written with
    | ok text =>
      rw [read] at reported
      cases reported
    | error index =>
      rw [read] at reported
      cases reported
      obtain ⟨before, plain, rest, same, upTo, none, unaccepted, rfl⟩ :=
        unescape_eq_error_iff.mp read
      exact ⟨before, plain, rest, same, upTo, none, unaccepted, rfl⟩
  · rintro ⟨before, plain, rest, same, upTo, none, unaccepted, rfl⟩
    rw [unescape_eq_error_iff.mpr ⟨before, plain, rest, same, upTo, none, unaccepted, rfl⟩]
    rfl

/-- A malformed escape behind a complete one is not reported by its place in the text. -/
theorem later_escape_misplaced : ¬∀ before rest text : List Char,
    Spelt (· ≠ '\\') Escape before text → (∀ body c, Escape body c → ¬body <+: rest) →
      unescape (before ++ '\\' :: rest) = .error before.length := by
  intro law
  have isEscape : Escape ['n'] '\n' := .short (by decide)
  have newline : Spelt (· ≠ '\\') Escape ['\\', 'n'] ['\n'] := .escape isEscape .nil
  have unaccepted : Unaccepted ['q'] := escape?_eq_none_iff.mp rfl
  have placed := law ['\\', 'n'] ['q'] ['\n'] newline
    fun body c isEscape => unaccepted body c (.complete isEscape)
  exact absurd placed (by decide +kernel)

end LazyConfig.Text
