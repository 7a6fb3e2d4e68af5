import LazyConfig.Proofs.Token.Numeral

/-!
# Integer literals

The digits of a radix, with single underscores between them, denote their positional value: behind
a zero and the letter of the radix, behind a leading zero in radix eight, and in radix ten
otherwise. A literal with such a letter refuses what could be taken for one of its digits.
-/

namespace LazyConfig.Token

open Numeral (IsDigit Scan marks radixes)
open Text (hexDigits hexValue? isAlphanumeric)

variable {radix number : Nat} {written rest : List Char} {values : List Nat} {here : Cursor}
  {c mark : Char}

/-! ### Digits and literals -/

/-- Digits of a radix with at most one underscore between two of them, and what they are worth. -/
inductive Digits (radix : Nat) : List Char → List Nat → Prop
  | last {c : Char} {value : Nat} (isDigit : (c, value) ∈ hexDigits) (small : value < radix) :
      Digits radix [c] [value]
  | next {c : Char} {value : Nat} {written : List Char} {values : List Nat}
      (isDigit : (c, value) ∈ hexDigits) (small : value < radix)
      (others : Digits radix written values) : Digits radix (c :: written) (value :: values)
  | spaced {c : Char} {value : Nat} {written : List Char} {values : List Nat}
      (isDigit : (c, value) ∈ hexDigits) (small : value < radix)
      (others : Digits radix written values) :
      Digits radix (c :: '_' :: written) (value :: values)

/-- An integer literal and its value. The digits stand behind a zero and the letter of their radix,
they are octal if the first of them is a zero, and decimal otherwise. -/
inductive IntegerLiteral : List Char → Nat → Prop
  | marked {mark : Char} {radix : Nat} {written : List Char} {values : List Nat}
      (isMark : (mark, radix) ∈ marks) (digits : Digits radix written values) :
      IntegerLiteral ('0' :: mark :: written) (Nat.ofDigits radix values.reverse)
  | octal {written : List Char} {values : List Nat} (digits : Digits 8 ('0' :: written) values) :
      IntegerLiteral ('0' :: written) (Nat.ofDigits 8 values.reverse)
  | decimal {c : Char} {written : List Char} {values : List Nat}
      (digits : Digits 10 (c :: written) values) (noZero : c ≠ '0')
      (short : values.length ≤ Decimal.digitLimit) :
      IntegerLiteral (c :: written) (Nat.ofDigits 10 values.reverse)

/-- The next token is an integer with the given characters and value, and the rest is left to
read. -/
def ReadsInteger (here : Cursor) (written : List Char) (number : Int) (rest : List Char) : Prop :=
  ∃ token, next here = (.ok token, here.skip written.length) ∧
    (here.skip written.length).rest = rest ∧ token.kind = .integer ∧
    token.text = String.ofList written ∧ token.value = .int number

/-- The character that stands behind so many others is no part of the number before it. -/
def RefusesNumber (here : Cursor) (count : Nat) (c : Char) : Prop :=
  ∃ behind, next here = (.error ⟨.number c.toString, (here.skip count).location⟩, behind)

namespace Numeral

/-- The values of decimal digits are their distances from the zero. -/
theorem digitValues_eq {digits : List Char} (decimal : ∀ c ∈ digits, IsDigit 10 c) :
    Decimal.digitValues digits = digits.filterMap hexValue? := by
  have distance : ∀ digit ∈ hexDigits, digit.2 < 10 → digit.1.toNat - '0'.toNat = digit.2 := by
    decide
  induction digits with
  | nil => rfl
  | cons c digits ih =>
    obtain ⟨⟨value, small, listed⟩, others⟩ := List.forall_mem_cons.mp decimal
    rw [List.filterMap_cons, Text.hexValue?_eq_some_iff.mpr listed, ← ih others]
    exact congrArg (· :: _) (distance (c, value) listed small)

theorem number_eq_valueIn {digits : List Char} (decimal : ∀ c ∈ digits, IsDigit 10 c) :
    Decimal.number digits = valueIn 10 digits := by
  rw [Decimal.number, digitValues_eq decimal, valueIn]

end Numeral

namespace Digits

theorem ne_underscore {value : Nat} (isDigit : (c, value) ∈ hexDigits) : c ≠ '_' := by
  rintro rfl
  revert isDigit
  simp [hexDigits]

theorem mono {larger : Nat} (digits : Digits radix written values) (le : radix ≤ larger) :
    Digits larger written values := by
  induction digits with
  | last isDigit small => exact .last isDigit (small.trans_le le)
  | next isDigit small _ ih => exact .next isDigit (small.trans_le le) ih
  | spaced isDigit small _ ih => exact .spaced isDigit (small.trans_le le) ih

/-- Without the underscores the digits are left. -/
theorem forall₂ (digits : Digits radix written values) :
    List.Forall₂ (fun digit value => IsDigit radix digit ∧ (digit, value) ∈ hexDigits)
      (written.filter (· ≠ '_')) values := by
  have plain {c : Char} {value : Nat} (isDigit : (c, value) ∈ hexDigits) (written : List Char) :
      (c :: written).filter (· ≠ '_') = c :: written.filter (· ≠ '_') := by
    simp [ne_underscore isDigit]
  induction digits with
  | last isDigit small =>
    rw [plain isDigit]
    exact .cons ⟨⟨_, small, isDigit⟩, isDigit⟩ .nil
  | next isDigit small _ ih =>
    rw [plain isDigit]
    exact .cons ⟨⟨_, small, isDigit⟩, isDigit⟩ ih
  | spaced isDigit small _ ih =>
    rw [plain isDigit, List.filter_cons_of_neg (by simp)]
    exact .cons ⟨⟨_, small, isDigit⟩, isDigit⟩ ih

theorem isDigit (digits : Digits radix written values) :
    ∀ c ∈ written.filter (· ≠ '_'), IsDigit radix c :=
  ((List.forall₂_and_left _ _).mp digits.forall₂).1

theorem head (digits : Digits radix (c :: written) values) : IsDigit radix c := by
  cases digits with
  | last isDigit small => exact ⟨_, small, isDigit⟩
  | next isDigit small => exact ⟨_, small, isDigit⟩
  | spaced isDigit small => exact ⟨_, small, isDigit⟩

theorem isDigit_first (digits : Digits 10 (c :: written) values) : Text.isDigit c :=
  (Numeral.isDigitIn_iff Numeral.none_mem_radixes).mpr digits.head

theorem length_eq (digits : Digits radix written values) :
    (written.filter (· ≠ '_')).length = values.length :=
  digits.forall₂.length_eq

theorem ne_nil (digits : Digits radix written values) : written ≠ [] := by
  cases digits <;> simp

/-- Digits end in a digit. -/
theorem getLast?_ne (digits : Digits radix written values) : written.getLast? ≠ some '_' := by
  induction digits with
  | last isDigit _ => simpa using ne_underscore isDigit
  | @next c _ written _ _ _ others ih =>
    obtain ⟨first, others, rfl⟩ := List.exists_cons_of_ne_nil others.ne_nil
    rwa [List.getLast?_cons_cons]
  | @spaced c _ written _ _ _ others ih =>
    obtain ⟨first, others, rfl⟩ := List.exists_cons_of_ne_nil others.ne_nil
    rwa [List.getLast?_cons_cons, List.getLast?_cons_cons]

theorem head?_reverse_append (digits : Digits radix written values) (before : List Char) :
    (written.reverse ++ before).head? ≠ some '_' := by
  rw [List.head?_append_of_ne_nil _ (by simpa using digits.ne_nil), List.head?_reverse]
  exact digits.getLast?_ne

theorem point_not_mem (digits : Digits radix written values) : '.' ∉ written := by
  intro among
  obtain ⟨value, -, listed⟩ := digits.isDigit '.' (List.mem_filter.mpr ⟨among, by decide⟩)
  simp [hexDigits] at listed

theorem filter_ne_nil (digits : Digits radix written values) :
    written.filter (· ≠ '_') ≠ [] := by
  have some : values ≠ [] := by cases digits <;> simp
  rwa [← List.length_pos_iff, length_eq digits, List.length_pos_iff]

theorem valueIn_eq (digits : Digits radix written values) :
    Numeral.valueIn radix (written.filter (· ≠ '_')) = Nat.ofDigits radix values.reverse := by
  have isValue := digits.forall₂.imp fun _ _ both => Text.hexValue?_eq_some_iff.mpr both.2
  rw [Numeral.valueIn, (Text.forall₂_hexValue?_iff.mp isValue).2,
    Text.ofDigits_eq_ofDigits_reverse]

theorem number_eq (digits : Digits 10 written values) :
    Decimal.number (written.filter (· ≠ '_')) = Nat.ofDigits 10 values.reverse := by
  rw [Numeral.number_eq_valueIn digits.isDigit, digits.valueIn_eq]

end Digits

/-! ### Scans of digits -/

/-- The rest of a text does not go on with an integer literal. -/
def EndsInteger (rest : List Char) : Prop :=
  ∀ d ∈ rest.head?, isAlphanumeric d = false ∧ d ≠ '.' ∧ d ≠ '_'

namespace Numeral

theorem Scan.runs_digits {s : Scan} (listed : s.radix ∈ radixes) (isRadix : s.radix.getD 10 = radix)
    (digits : Digits radix written values) :
    s.Runs written { s with text := written.reverse ++ s.text, afterDigit := true } := by
  have step {s : Scan} {c : Char} {value : Nat} (listed : s.radix ∈ radixes)
      (isRadix : s.radix.getD 10 = radix) (isDigit : (c, value) ∈ hexDigits)
      (small : value < radix) : s.Extends c { s.push c with afterDigit := true } :=
    .digit ((isDigitIn_iff listed).mpr ⟨value, isRadix ▸ small, isDigit⟩)
  induction digits generalizing s with
  | last isDigit small => exact .cons (step listed isRadix isDigit small) (.refl _)
  | @next c _ written _ isDigit small _ ih =>
    rw [List.reverse_cons, List.append_assoc]
    exact .cons (step listed isRadix isDigit small)
      (@ih { s.push c with afterDigit := true } listed isRadix)
  | @spaced c _ written _ isDigit small _ ih =>
    rw [List.reverse_cons, List.reverse_cons, List.append_assoc, List.append_assoc]
    refine .cons (step listed isRadix isDigit small) (.cons (.underscore rfl rfl) ?_)
    exact @ih (({ s.push c with afterDigit := true } : Scan).push '_') listed isRadix

/-- A decimal digit opens a literal, and the others go on with it. -/
theorem start_runs_digits (digits : Digits 10 (c :: written) values) :
    (start [c]).Runs written { text := written.reverse ++ [c], afterDigit := true } := by
  have opened : start [c] = { text := [c], afterDigit := true } := by
    simp [start, digits.isDigit_first]
  rw [opened]
  cases digits with
  | last => exact .refl _
  | next _ _ others =>
    exact Scan.runs_digits (s := { text := [c], afterDigit := true }) none_mem_radixes rfl others
  | spaced _ _ others =>
    rw [List.reverse_cons, List.append_assoc]
    refine .cons (.underscore rfl rfl) ?_
    exact Scan.runs_digits (s := { text := ['_', c], afterDigit := false }) none_mem_radixes rfl
      others

theorem start_runs_marked (isMark : (mark, radix) ∈ marks) (digits : Digits radix written values) :
    (start ['0']).Runs (mark :: written)
      { text := written.reverse ++ [mark, '0'], radix := some radix, afterDigit := true } := by
  have isRadix := radix?_eq_some_iff.mpr isMark
  have marked := Scan.Extends.mark (s := start ['0']) rfl (isDigit_eq_false_of_mem_marks isMark)
    (by rw [isRadix]; rfl)
  rw [isRadix] at marked
  refine .cons marked ?_
  exact Scan.runs_digits (s := { text := [mark, '0'], radix := some radix, afterDigit := false })
    (isRadix ▸ radix?_mem_radixes mark) rfl digits

/-! ### Values of literals -/

theorem integer?_marked (isMark : (mark, radix) ∈ marks) (digits : Digits radix written values) :
    integer? (some radix) (('0' :: mark :: written).filter (· ≠ '_')) =
      some ((Nat.ofDigits radix values.reverse : Nat) : Int) := by
  have noUnderscore : mark ≠ '_' := by
    have all : ∀ mark ∈ marks, mark.1 ≠ '_' := by decide
    exact all _ isMark
  have plain : ('0' :: mark :: written).filter (· ≠ '_') =
      '0' :: mark :: written.filter (· ≠ '_') := by
    simp [noUnderscore]
  have some : written.filter (· ≠ '_') ≠ [] := digits.filter_ne_nil
  rw [plain, integer?]
  simp only [List.drop_succ_cons, List.drop_zero, if_neg some, digits.valueIn_eq]

theorem integer?_octal (digits : Digits 8 ('0' :: written) values) :
    integer? none (('0' :: written).filter (· ≠ '_')) =
      some ((Nat.ofDigits 8 values.reverse : Nat) : Int) := by
  have plain : ('0' :: written).filter (· ≠ '_') = '0' :: written.filter (· ≠ '_') := by simp
  have isOctal := digits.isDigit
  have isValue := digits.valueIn_eq
  rw [plain] at isOctal isValue ⊢
  have allOctal : (written.filter (· ≠ '_')).all (isDigitIn (some 8)) := by
    refine List.all_eq_true.mpr fun c among => ?_
    exact (isDigitIn_iff (by decide)).mpr (isOctal c (List.mem_cons_of_mem _ among))
  -- the zero in front is worth nothing
  rw [integer?, if_pos allOctal, ← isValue]
  rfl

theorem integer?_decimal (digits : Digits 10 (c :: written) values) (noZero : c ≠ '0')
    (short : values.length ≤ Decimal.digitLimit) :
    integer? none ((c :: written).filter (· ≠ '_')) =
      some ((Nat.ofDigits 10 values.reverse : Nat) : Int) := by
  have plain : (c :: written).filter (· ≠ '_') = c :: written.filter (· ≠ '_') := by
    simp [@ne_underscore_of_isDigitIn c none digits.isDigit_first]
  have noSign : c ≠ '-' := by
    rintro rfl
    exact absurd digits.isDigit_first (by decide)
  have isValue := digits.number_eq
  rw [← digits.length_eq] at short
  rw [plain] at isValue short ⊢
  unfold integer?
  split
  case h_1 none => cases none
  case h_2 same => exact absurd (List.cons.inj same).1 noZero
  case h_3 same => exact absurd (List.cons.inj same).1 noSign
  case h_4 => rw [if_pos short, isValue]

/-! ### Literals -/

theorem Scan.stopsAt_of_endsInteger {s : Scan} (noExponent : s.inExponent = false)
    (ends : EndsInteger rest) : s.StopsAt rest := by
  intro d isNext
  obtain ⟨noLetter, noPoint, noUnderscore⟩ := ends d isNext
  refine step_eq_finish noUnderscore fun longer extended => ?_
  rcases extended.char with same | isLetter | isPoint | ⟨-, inExponent⟩
  · exact noUnderscore same
  · rw [noLetter] at isLetter
    cases isLetter
  · exact noPoint isPoint
  · rw [noExponent] at inExponent
    cases inExponent

theorem Scan.endsInteger_of_stopsAt {s : Scan} (stops : s.StopsAt rest) (apart : Scan.Apart rest) :
    EndsInteger rest := by
  intro d isNext
  refine ⟨(apart d isNext).2, (apart d isNext).1, ?_⟩
  rintro rfl
  have finished := stops '_' isNext
  rw [step, if_pos rfl] at finished
  split at finished <;> cases finished

/-- A literal with the given opening goes on with the characters, and the scan of them denotes an
integer. -/
structure ScansInteger (opening taken : List Char) (longer : Scan) (number : Int) : Prop where
  runs : (start opening).Runs taken longer
  noUnderscore : longer.text.head? ≠ some '_'
  noExponent : longer.inExponent = false
  noPoint : '.' ∉ longer.text
  isNumber : integer? longer.radix (longer.text.reverse.filter (· ≠ '_')) = some number

/-- An integer is read exactly if its characters are scanned. -/
theorem read_eq_integer_iff {text opening : List Char} {found : Lexeme} :
    read opening text = .ok found ∧ found.kind = .integer ↔
      ∃ taken rest longer number, text = taken ++ rest ∧ EndsInteger rest ∧
        ScansInteger opening taken longer number ∧
        found = ⟨.integer, longer.text.length, .int number, true⟩ := by
  constructor
  · rintro ⟨done, isInteger⟩
    obtain ⟨taken, rest, longer, rfl, runs, stops, finished⟩ := read_eq_ok_iff.mp done
    obtain ⟨noUnderscore, apart, noExponent, noPoint, number, isNumber, isFound⟩ :=
      Scan.finish_eq_integer_iff.mp ⟨finished, isInteger⟩
    exact ⟨taken, rest, longer, number, rfl, Scan.endsInteger_of_stopsAt stops apart,
      ⟨runs, noUnderscore, noExponent, noPoint, isNumber⟩, isFound⟩
  · rintro ⟨taken, rest, longer, number, rfl, ends, scans, isFound⟩
    have apart : Scan.Apart rest := fun d isNext => ⟨(ends d isNext).2.1, (ends d isNext).1⟩
    obtain ⟨finished, isInteger⟩ := Scan.finish_eq_integer_iff.mpr
      ⟨scans.noUnderscore, apart, scans.noExponent, scans.noPoint, number, scans.isNumber, isFound⟩
    exact ⟨read_eq_ok_iff.mpr ⟨taken, rest, longer, rfl, scans.runs,
      Scan.stopsAt_of_endsInteger scans.noExponent ends, finished⟩, isInteger⟩

/-- A scan of the characters of an integer gives this integer. -/
theorem read_of_runs {opening taken whole : List Char} {longer : Scan}
    (runs : (start opening).Runs taken longer) (isText : longer.text = whole.reverse)
    (noExponent : longer.inExponent = false) (noPoint : '.' ∉ whole)
    (noUnderscore : whole.getLast? ≠ some '_')
    (isValue : integer? longer.radix (whole.filter (· ≠ '_')) = some (number : Int))
    (ends : EndsInteger rest) :
    read opening (taken ++ rest) = .ok ⟨.integer, whole.length, .int number, true⟩ := by
  have length : longer.text.length = whole.length := by rw [isText, List.length_reverse]
  rw [← length]
  rw [← List.mem_reverse, ← isText] at noPoint
  rw [← List.head?_reverse, ← isText] at noUnderscore
  rw [← whole.reverse_reverse, ← isText] at isValue
  exact (read_eq_integer_iff.mpr ⟨taken, rest, longer, _, rfl, ends,
    ⟨runs, noUnderscore, noExponent, noPoint, isValue⟩, rfl⟩).1

theorem read_marked (isMark : (mark, radix) ∈ marks) (digits : Digits radix written values)
    (ends : EndsInteger rest) :
    read ['0'] (mark :: written ++ rest) = .ok ⟨.integer, ('0' :: mark :: written).length,
      .int (Nat.ofDigits radix values.reverse : Nat), true⟩ := by
  have noPoint : mark ≠ '.' := by
    have all : ∀ mark ∈ marks, mark.1 ≠ '.' := by decide
    exact all _ isMark
  have noUnderscore := digits.head?_reverse_append [mark, '0']
  refine read_of_runs (start_runs_marked isMark digits) (by simp) rfl ?_ ?_
    (integer?_marked isMark digits) ends
  · simp [noPoint.symm, digits.point_not_mem]
  · rwa [← List.head?_reverse, List.reverse_cons, List.reverse_cons, List.append_assoc]

/-- Digits without the letter of a radix, octal or decimal ones. -/
theorem read_unmarked (digits : Digits 10 (c :: written) values)
    (isValue : integer? none ((c :: written).filter (· ≠ '_')) = some (number : Int))
    (ends : EndsInteger rest) :
    read [c] (written ++ rest) = .ok ⟨.integer, (c :: written).length, .int number, true⟩ :=
  read_of_runs (start_runs_digits digits) (List.reverse_cons).symm rfl digits.point_not_mem
    digits.getLast?_ne isValue ends

end Numeral

/-- The first character of a literal, and the token that it makes with the others. -/
theorem IntegerLiteral.lexeme (literal : IntegerLiteral written number) (ends : EndsInteger rest) :
    ∃ c others, written = c :: others ∧ Text.isDigit c ∧
      Token.lexeme c (others ++ rest) = .ok ⟨.integer, written.length, .int number, true⟩ := by
  cases literal with
  | marked isMark digits =>
    refine ⟨'0', _, rfl, by decide, ?_⟩
    rw [Numeral.lexeme_of_digit (by decide)]
    exact Numeral.read_marked isMark digits ends
  | octal digits =>
    have decimal := digits.mono (show 8 ≤ 10 by decide)
    refine ⟨'0', _, rfl, by decide, ?_⟩
    rw [Numeral.lexeme_of_digit (by decide)]
    exact Numeral.read_unmarked decimal (Numeral.integer?_octal digits) ends
  | decimal digits noZero short =>
    refine ⟨_, _, rfl, digits.isDigit_first, ?_⟩
    rw [Numeral.lexeme_of_digit digits.isDigit_first]
    exact Numeral.read_unmarked digits (Numeral.integer?_decimal digits noZero short) ends

theorem readsInteger_of_literal (whole : here.fault = none)
    (literal : IntegerLiteral written number) (ends : EndsInteger rest)
    (isRest : here.rest = written ++ rest) : ReadsInteger here written number rest := by
  obtain ⟨c, others, rfl, isFirst, isFound⟩ := literal.lexeme ends
  obtain ⟨plain, notBlank⟩ := Numeral.plain_of_isDigit isFirst
  obtain ⟨token, isNext, made⟩ := next_of_lexeme whole isRest plain notBlank isFound
  refine ⟨token, isNext, ?_, made.kind, ?_, made.value⟩
  · rw [Cursor.skip, isRest]
    exact List.drop_left
  · rw [made.text]
    exact congrArg String.ofList List.take_left

/-- Where a digit is expected, a point or any other letter or digit is refused. -/
theorem Numeral.read_refused (isMark : (mark, radix) ∈ marks)
    (digits : Digits radix written values) (goesOn : c = '.' ∨ isAlphanumeric c ∧ ¬IsDigit radix c)
    (rest : List Char) :
    read ['0'] (mark :: written ++ c :: rest) =
      .error ⟨.number c.toString, ('0' :: mark :: written).length,
        ('0' :: mark :: written).length + 1, false⟩ := by
  have isRadix : some radix ∈ radixes := radix?_eq_some_iff.mpr isMark ▸ radix?_mem_radixes mark
  have goesOnToo : c = '.' ∨ isAlphanumeric c := goesOn.imp_right (·.1)
  -- the letter of the radix has been read, so that only a digit or an underscore could follow
  have stops : Scan.StopsAt
      { text := written.reverse ++ [mark, '0'], radix := some radix, afterDigit := true }
      (c :: rest) := by
    rintro _ ⟨⟩
    refine Scan.step_eq_finish ?_ fun longer extended => ?_
    · rintro rfl
      exact absurd goesOnToo (by decide +kernel)
    · cases extended with
      | underscore same =>
        subst same
        exact absurd goesOnToo (by decide +kernel)
      | digit isIn =>
        have isDigit := (isDigitIn_iff isRadix).mp isIn
        rcases goesOn with rfl | ⟨-, noDigit⟩
        · obtain ⟨value, -, listed⟩ := isDigit
          simp [hexDigits] at listed
        · exact noDigit isDigit
      | mark zero => simpa using congrArg List.length zero
      | other allowed => cases (Scan.allows_cases allowed).1
  have ran := Scan.run_eq_ok_iff.mpr ⟨_, rfl, start_runs_marked isMark digits, stops⟩
  rw [read_of_run ran, Scan.finish_refused rfl (digits.head?_reverse_append _) goesOnToo]
  simp

/-- A literal is read as the number that it denotes, in front of anything that does not go on with
it, and a letter, digit or point that could be taken for one of its digits is refused. -/
theorem integer_literal_read (whole : here.fault = none) :
    (∀ written rest number, IntegerLiteral written number → EndsInteger rest →
        here.rest = written ++ rest → ReadsInteger here written number rest) ∧
      ∀ mark radix written values c rest, (mark, radix) ∈ marks → Digits radix written values →
        (c = '.' ∨ isAlphanumeric c ∧ ¬IsDigit radix c) →
        here.rest = '0' :: mark :: written ++ c :: rest →
          RefusesNumber here ('0' :: mark :: written).length c := by
  refine ⟨fun written rest number literal ends isRest =>
    readsInteger_of_literal whole literal ends isRest, ?_⟩
  intro mark radix written values c rest isMark digits goesOn isRest
  have refused : lexeme '0' (mark :: written ++ c :: rest) = .error _ :=
    (Numeral.lexeme_of_digit (by decide) _).trans
      (Numeral.read_refused isMark digits goesOn rest)
  obtain ⟨plain, notBlank⟩ := Numeral.plain_of_isDigit (c := '0') (by decide)
  have isText : here.rest = '0' :: (mark :: written ++ c :: rest) := isRest
  rw [RefusesNumber, next_of_solid whole isText plain notBlank]
  simp only [solid, refused]
  exact ⟨_, rfl⟩

/-- Hexadecimal digits in front of a sign, and a binary literal in front of a digit that it cannot
have. -/
theorem integer_literal_read_marked :
    ReadsInteger { rest := ['0', 'X', '1', '_', 'f', '+'] } ['0', 'X', '1', '_', 'f'] 31 ['+'] ∧
      RefusesNumber { rest := ['0', 'b', '1', '0', '2', ';'] } 4 '2' := by
  have hexadecimal : Digits 16 ['1', '_', 'f'] [1, 15] :=
    .spaced (by decide) (by decide) (.last (by decide) (by decide))
  have binary : Digits 2 ['1', '0'] [1, 0] :=
    .next (by decide) (by decide) (.last (by decide) (by decide))
  have ends : EndsInteger ['+'] := by simp [EndsInteger]; decide +kernel
  have noDigit : isAlphanumeric '2' ∧ ¬IsDigit 2 '2' := by
    refine ⟨by decide +kernel, ?_⟩
    rintro ⟨value, small, listed⟩
    have all : ∀ digit ∈ hexDigits, digit.1 = '2' → digit.2 = 2 := by decide
    have two := all _ listed rfl
    omega
  refine ⟨(integer_literal_read rfl).1 _ _ _ (.marked (by decide) hexadecimal) ends rfl, ?_⟩
  exact (integer_literal_read rfl).2 'b' 2 _ _ '2' [';'] (by decide) binary (.inr noDigit) rfl

end LazyConfig.Token
