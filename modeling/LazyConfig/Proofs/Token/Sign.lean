import LazyConfig.Proofs.Token.Integer

/-!
# Signs of integer literals

A minus sign in front of an integer takes it for decimal digits, whatever it is without the sign. So
it negates decimal integers. A leading zero no longer makes the digits octal, which matters from the
value eight on, and behind it no letter can mark a radix.
-/

namespace LazyConfig.Token

open Numeral (Scan start marks)
open Text (isDigit isBlank)

variable {text rest taken : List Char} {c : Char} {found : Lexeme} {number : Nat}

/-! ### Texts that are an integer -/

/-- The tokens of the text are an integer and the end token. -/
def IsInteger (text : String) (number : Int) : Prop :=
  ∃ token ending, ((Cursor.ofString text).tokens false).1 = [.ok token, .ok ending] ∧
    token.kind = .integer ∧ token.value = .int number ∧ ending.kind = .eof

/-- Blanks, and line ends behind backslashes. -/
inductive Vacant : List Char → Prop
  | nil : Vacant []
  | blank {c : Char} {rest : List Char} (plain : IsPlain c) (isBlank : isBlank c = true)
      (vacant : Vacant rest) : Vacant (c :: rest)
  | continued {rest : List Char} (vacant : Vacant rest) : Vacant ('\\' :: '\n' :: rest)
  | returned {rest : List Char} (vacant : Vacant rest) : Vacant ('\\' :: '\r' :: '\n' :: rest)

theorem Vacant.isDigit_eq_false (vacant : Vacant text) : ∀ c ∈ text, isDigit c = false := by
  have ofBlank {c : Char} (blank : isBlank c = true) : isDigit c = false := by
    by_contra isFirst
    exact (Numeral.plain_of_isDigit (by simpa using isFirst)).2 blank
  induction vacant with
  | nil => simp
  | blank _ blank _ ih => exact List.forall_mem_cons.mpr ⟨ofBlank blank, ih⟩
  | continued _ ih => simpa using ⟨by decide, by decide, ih⟩
  | returned _ ih => simpa using ⟨by decide, by decide, by decide, ih⟩

/-- The end token is read where nothing else is left, whatever the place is. -/
theorem exists_end_iff (cursor : Cursor) (location : Location) :
    (∃ t, (nextFrom cursor location text).result = .ok t ∧ t.kind = .eof) ↔ Vacant text := by
  constructor
  · rintro ⟨t, read, isEnd⟩
    fun_induction nextFrom cursor location text with
    | case1 => exact .nil
    | case2 | case3 | case4 | case5 =>
      cases read
      cases isEnd
    | case6 location tail _ _ _ ih => exact .continued (ih read)
    | case7 location tail _ _ _ ih => exact .returned (ih read)
    | case8 | case9 => cases read
    | case10 location c tail noComment noFeed noReturn noBackslash blank ih =>
      exact .blank ⟨noComment, noFeed, noReturn, noBackslash⟩ blank (ih read)
    | case11 location c tail here =>
      unfold solid at read
      cases isFound : lexeme c tail with
      | error => simp [isFound] at read
      | ok found =>
        simp only [isFound, Except.ok.injEq] at read
        subst read
        exact absurd isEnd (lexeme_within isFound).inner
  · intro vacant
    induction vacant generalizing location with
    | nil => exact ⟨_, rfl, rfl⟩
    | blank plain blank _ ih =>
      rw [nextFrom_blank _ _ plain blank]
      exact ih _
    | continued _ ih =>
      rw [nextFrom.eq_def]
      exact ih _
    | returned _ ih =>
      rw [nextFrom_continued]
      exact ih _

theorem vacant_iff {here : Cursor} (whole : here.fault = none) :
    Vacant here.rest ↔ ∃ ending last, next here = (.ok ending, last) ∧ ending.kind = .eof := by
  rw [next_of_fault_eq_none whole, ← exists_end_iff here here.location]
  simp only [Prod.mk.injEq]
  exact ⟨fun ⟨t, read, isEnd⟩ => ⟨t, _, ⟨read, rfl⟩, isEnd⟩,
    fun ⟨t, _, ⟨read, _⟩, isEnd⟩ => ⟨t, read, isEnd⟩⟩

theorem isInteger_iff {text : String} {number : Int} : IsInteger text number ↔
    ∃ token behind, next (Cursor.ofString text) = (.ok token, behind) ∧ token.kind = .integer ∧
      token.value = .int number ∧ Vacant behind.rest := by
  unfold IsInteger Cursor.tokens
  constructor
  · rintro ⟨token, ending, all, isInteger, isValue, isEnd⟩
    rcases isNext : next (Cursor.ofString text) with ⟨e | first, behind⟩
    · simp [readAll, isNext] at all
    by_cases isEof : first.kind = .eof
    · simp [readAll_of_end isNext isEof] at all
    rw [readAll_of_token isNext isEof] at all
    obtain ⟨same, others⟩ := List.cons.inj all
    cases same
    have whole := (next_behind rfl isNext).2
    refine ⟨token, behind, rfl, isInteger, isValue, (vacant_iff whole).mpr ?_⟩
    -- the end token is the only one that is read then
    cases isBound : (Cursor.ofString text).rest.length with
    | zero =>
      rw [isBound] at others
      cases others
    | succ bound =>
      rw [isBound] at others
      rcases isLast : next behind with ⟨e | second, last⟩
      · simp [readAll, isLast] at others
      by_cases isEof : second.kind = .eof
      · exact ⟨second, last, rfl, isEof⟩
      · rw [readAll_of_token isLast isEof] at others
        cases (List.cons.inj others).1
        exact absurd isEnd isEof
  · rintro ⟨token, behind, isNext, isInteger, isValue, vacant⟩
    have whole := (next_behind rfl isNext).2
    obtain ⟨ending, last, isLast, isEnd⟩ := (vacant_iff whole).mp vacant
    have inner : token.kind ≠ .eof := by simp [isInteger]
    have fewer := ((next_readFrom isNext).past.resolve_left inner).2
    obtain ⟨bound, isBound⟩ : ∃ bound, (Cursor.ofString text).rest.length = bound + 1 :=
      Nat.exists_eq_add_one_of_ne_zero (Nat.ne_zero_of_lt fewer)
    refine ⟨token, ending, ?_, isInteger, isValue, isEnd⟩
    rw [readAll_of_token isNext inner, isBound, readAll_of_end isLast isEnd]

/-! ### Scans behind a minus sign -/

namespace Numeral.Scan

variable {s next longer : Scan}

/-- The scan of the same literal behind a minus sign. -/
def signed (s : Scan) : Scan := { s with text := s.text ++ ['-'] }

theorem allows_signed (some : s.text ≠ []) (c : Char) : s.signed.allows c = s.allows c := by
  obtain ⟨first, others, isText⟩ := List.exists_cons_of_ne_nil some
  simp [allows, signed, isText]

/-- Both literals go on with the same characters, unless one of them marks the radix. -/
theorem Extends.signed (extended : s.Extends c next) (some : s.text ≠ [])
    (unmarked : next.radix = none) : s.signed.Extends c next.signed := by
  cases extended with
  | underscore same afterDigit => exact .underscore same afterDigit
  | digit isIn => exact .digit isIn
  | mark _ _ isMark => exact absurd unmarked (Option.isSome_iff_ne_none.mp isMark)
  | other allowed => exact .other ((allows_signed some c).trans allowed)

theorem Runs.signed (runs : s.Runs taken longer) (some : s.text ≠ [])
    (unmarked : longer.radix = none) : s.signed.Runs taken longer.signed := by
  induction runs with
  | refl => exact .refl _
  | cons first others ih =>
    have grown := congrArg List.length first.text_eq
    have long := List.length_pos_iff.mpr some
    rw [List.length_cons] at grown
    have firstUnmarked := (others.radix_eq (by omega)).symm.trans unmarked
    exact .cons (first.signed some firstUnmarked)
      (ih (List.length_pos_iff.mp (by omega)) unmarked)

end Numeral.Scan

namespace Numeral

theorem Scan.Runs.noExponent {s longer : Scan} (runs : s.Runs taken longer)
    (noExponent : longer.inExponent = false) : s.inExponent = false := by
  have kept : ∀ s c next, s.inExponent = true → Scan.Extends s c next → next.inExponent = true := by
    intro s c next inExponent extended
    cases extended with
    | other => simp [inExponent]
    | _ => exact inExponent
  by_contra inExponent
  have still := runs.invariant kept (by simpa using inExponent)
  rw [noExponent] at still
  cases still

/-- The characters of a decimal integer. -/
theorem Scan.Runs.isDigit {s longer : Scan} (runs : s.Runs taken longer) (some : s.text ≠ [])
    (unmarked : longer.radix = none) (noExponent : longer.inExponent = false)
    (noPoint : '.' ∉ longer.text) : ∀ c ∈ taken, c = '_' ∨ isDigit c := by
  induction runs with
  | refl => simp
  | @cons s next longer c taken first others ih =>
    have grown := congrArg List.length first.text_eq
    have long := List.length_pos_iff.mpr some
    rw [List.length_cons] at grown
    have nextUnmarked := (others.radix_eq (by omega)).symm.trans unmarked
    have nextNoExponent := others.noExponent noExponent
    refine List.forall_mem_cons.mpr
      ⟨?_, ih (List.length_pos_iff.mp (by omega)) unmarked noExponent noPoint⟩
    cases first with
    | underscore same => exact .inl same
    | digit isIn =>
      have noRadix : s.radix = none := nextUnmarked
      rw [noRadix] at isIn
      exact .inr isIn
    | mark _ _ isMark => exact absurd nextUnmarked (Option.isSome_iff_ne_none.mp isMark)
    | other allowed =>
      -- there is neither a point in the integer nor an exponent
      obtain ⟨-, ⟨rfl, -⟩ | ⟨-, inExponent, -⟩ | ⟨rfl | rfl, -⟩⟩ := Scan.allows_cases allowed
      · exact absurd (by simp [others.text_eq, push]) noPoint
      · simp [inExponent] at nextNoExponent
      · simp [isExponentMark] at nextNoExponent
      · simp [isExponentMark] at nextNoExponent

/-! ### Values with and without the sign -/

theorem integer?_signed (digits : List Char) :
    integer? none ('-' :: digits) =
      if digits.length ≤ Decimal.digitLimit then some (-(Decimal.number digits : Int)) else none :=
  rfl

theorem integer?_unsigned (isFirst : isDigit c) (noZero : c ≠ '0') (digits : List Char) :
    integer? none (c :: digits) =
      if (c :: digits).length ≤ Decimal.digitLimit then some (Decimal.number (c :: digits) : Int)
      else none := by
  have noSign : c ≠ '-' := by
    rintro rfl
    exact absurd isFirst (by decide)
  unfold integer?
  split
  case h_1 none => cases none
  case h_2 same => exact absurd (List.cons.inj same).1 noZero
  case h_3 same => exact absurd (List.cons.inj same).1 noSign
  case h_4 => rfl

theorem ofDigits_ten_eq_zero {values : List Nat} (zero : Nat.ofDigits 8 values = 0) :
    Nat.ofDigits 10 values = 0 := by
  have allZero := List.eq_replicate_of_mem (Nat.digits_zero_of_eq_zero (by decide) zero)
  rw [allZero, Nat.ofDigits_replicate_zero]

/-- Octal digits denote the same number in radix ten if all but the last of them are zeros. -/
theorem ofDigits_ten_eq_iff {values : List Nat} (small : ∀ value ∈ values, value < 8) :
    Nat.ofDigits 10 values = Nat.ofDigits 8 values ↔ Nat.ofDigits 8 values < 8 := by
  cases values with
  | nil => simp
  | cons last values =>
    have isSmall := small last (by simp)
    have le := Nat.ofDigits_monotone values (show 8 ≤ 10 by decide)
    have zero : Nat.ofDigits 8 values = 0 → Nat.ofDigits 10 values = 0 := ofDigits_ten_eq_zero
    rw [Nat.ofDigits_cons, Nat.ofDigits_cons]
    omega

theorem number_zero_cons_eq_iff {digits : List Char} (octal : digits.all (isDigitIn (some 8))) :
    Decimal.number ('0' :: digits) = valueIn 8 digits ↔ valueIn 8 digits < 8 := by
  have isOctal {c : Char} (among : c ∈ digits) : IsDigit 8 c :=
    (isDigitIn_iff (by decide)).mp (List.all_eq_true.mp octal c among)
  have isDecimal : ∀ c ∈ '0' :: digits, IsDigit 10 c := by
    refine List.forall_mem_cons.mpr ⟨⟨0, by decide, by decide⟩, fun c among => ?_⟩
    obtain ⟨value, small, listed⟩ := isOctal among
    exact ⟨value, by omega, listed⟩
  have small : ∀ value ∈ (digits.filterMap Text.hexValue?).reverse, value < 8 := by
    intro value among
    obtain ⟨c, among, isValue⟩ := List.mem_filterMap.mp (List.mem_reverse.mp among)
    obtain ⟨other, small, listed⟩ := isOctal among
    rw [Text.hexValue?_eq_some_iff.mpr listed] at isValue
    cases isValue
    exact small
  have noZero : valueIn 10 ('0' :: digits) = valueIn 10 digits := rfl
  rw [number_eq_valueIn isDecimal, noZero, valueIn, valueIn, Text.ofDigits_eq_ofDigits_reverse,
    Text.ofDigits_eq_ofDigits_reverse]
  exact ofDigits_ten_eq_iff small

end Numeral

/-! ### Integers with and without the sign -/

open Numeral (Opens ScansInteger)

/-- A text is an integer if a scan of its first characters denotes the integer, and nothing else is
left behind them. -/
theorem isInteger_iff_scans {text : String} {opening more : List Char} {number : Int}
    (opens : Opens opening) (isText : text.toList = opening.reverse ++ more) :
    IsInteger text number ↔ ∃ taken rest longer, more = taken ++ rest ∧ EndsInteger rest ∧
      ScansInteger opening taken longer number ∧ Vacant rest := by
  obtain ⟨c, others, same⟩ : ∃ c others, opening.reverse ++ more = c :: others := by
    cases opens <;> exact ⟨_, _, rfl⟩
  obtain ⟨plain, notBlank⟩ := opens.plain same
  have isRest : (Cursor.ofString text).rest = c :: others := isText.trans same
  -- what is left behind a scan that starts with the text
  have left {taken rest : List Char} {longer : Scan} (isMore : more = taken ++ rest)
      (scans : ScansInteger opening taken longer number) :
      ((Cursor.ofString text).skip longer.text.length).rest = rest := by
    rw [Cursor.skip, isRest, ← same, isMore, ← List.append_assoc, scans.runs.text_eq]
    exact List.drop_left' (by simp [start, Nat.add_comm])
  rw [isInteger_iff]
  constructor
  · rintro ⟨token, behind, isNext, isInteger, isValue, vacant⟩
    cases isFound : lexeme c others with
    | error misread =>
      rw [next_of_solid rfl isRest plain notBlank] at isNext
      simp [solid, isFound] at isNext
    | ok found =>
      obtain ⟨t, isNextToo, made⟩ := next_of_lexeme rfl isRest plain notBlank isFound
      obtain ⟨sameToken, rfl⟩ := Prod.mk.inj (isNextToo.symm.trans isNext)
      cases sameToken
      rw [opens.lexeme_eq same] at isFound
      obtain ⟨taken, rest, longer, other, isMore, ends, scans, rfl⟩ :=
        Numeral.read_eq_integer_iff.mp ⟨isFound, made.kind ▸ isInteger⟩
      rw [made.value] at isValue
      cases isValue
      rw [left isMore scans] at vacant
      exact ⟨taken, rest, longer, isMore, ends, scans, vacant⟩
  · rintro ⟨taken, rest, longer, isMore, ends, scans, vacant⟩
    obtain ⟨isFound, -⟩ := Numeral.read_eq_integer_iff.mpr
      ⟨taken, rest, longer, number, isMore, ends, scans, rfl⟩
    rw [← opens.lexeme_eq same] at isFound
    obtain ⟨t, isNext, made⟩ := next_of_lexeme rfl isRest plain notBlank isFound
    refine ⟨t, _, isNext, made.kind, made.value, ?_⟩
    rwa [left isMore scans]

/-- Behind a minus sign only a digit goes on with an integer. -/
theorem exists_digit_of_signed {text : String} {number : Int}
    (read : IsInteger ("-" ++ text) number) : ∃ c more, text.toList = c :: more ∧ isDigit c := by
  obtain ⟨token, behind, isNext, isInteger, -, -⟩ := isInteger_iff.mp read
  have isRest : (Cursor.ofString ("-" ++ text)).rest = '-' :: text.toList := String.toList_append
  have plain : IsPlain '-' := ⟨by decide, by decide, by decide, by decide⟩
  have notBlank : ¬isBlank '-' = true := by decide +kernel
  cases isFound : lexeme '-' text.toList with
  | error misread =>
    rw [next_of_solid rfl isRest plain notBlank] at isNext
    simp [solid, isFound] at isNext
  | ok found =>
    obtain ⟨t, isNextToo, made⟩ := next_of_lexeme rfl isRest plain notBlank isFound
    cases (Prod.mk.inj (isNextToo.symm.trans isNext)).1
    have isKind : found.kind = .integer := made.kind ▸ isInteger
    obtain ⟨opening, more, opens, same, done⟩ := opens_of_lexeme isFound (by rw [isKind]; rfl)
    cases opens with
    | digit isFirst =>
      obtain ⟨rfl, -⟩ := List.cons.inj same
      exact absurd isFirst (by decide)
    | @second _ d starts =>
      obtain ⟨rfl, isText⟩ := List.cons.inj same
      refine ⟨d, more, isText.symm, ?_⟩
      by_contra noDigit
      obtain rfl : d = '.' := by simpa [startsNumber, noDigit] using starts
      -- a literal with a point is no integer
      obtain ⟨taken, rest, longer, number, -, -, scans, -⟩ :=
        Numeral.read_eq_integer_iff.mp ⟨done, isKind⟩
      exact scans.noPoint (by simp [scans.runs.text_eq, start])

namespace Numeral

variable {longer : Scan} {value : Int}

/-- Behind a minus sign the same characters are taken, and only the value may be another one. -/
theorem ScansInteger.signed_iff (scans : ScansInteger [c] taken longer value)
    (unmarked : longer.radix = none) (signedValue : Int) :
    ScansInteger [c, '-'] taken longer.signed signedValue ↔
      integer? none ('-' :: (c :: taken).filter (· ≠ '_')) = some signedValue := by
  have isText : longer.text = taken.reverse ++ [c] := scans.runs.text_eq
  have digits : longer.signed.text.reverse.filter (· ≠ '_') =
      '-' :: (c :: taken).filter (· ≠ '_') := by
    rw [Scan.signed, isText, List.reverse_append, List.reverse_append, List.reverse_reverse]
    exact List.filter_cons_of_pos (by decide)
  constructor
  · intro signedScans
    have isNumber := signedScans.isNumber
    rwa [digits, show longer.signed.radix = none from unmarked] at isNumber
  · intro isNumber
    have runs : (start [c, '-']).Runs taken longer.signed :=
      scans.runs.signed (by simp [start]) unmarked
    have sameHead : longer.signed.text.head? = longer.text.head? :=
      List.head?_append_of_ne_nil _ (by simp [isText])
    have noPoint : '.' ∉ longer.signed.text := by simp [Scan.signed, scans.noPoint]
    rw [← digits] at isNumber
    exact ⟨runs, sameHead ▸ scans.noUnderscore, scans.noExponent, noPoint,
      (show longer.signed.radix = none from unmarked) ▸ isNumber⟩

/-- The digits of a decimal or octal integer, behind a minus sign. -/
theorem integer?_signed_iff {digits : List Char} {number : Nat} (isFirst : isDigit c)
    (isNumber : integer? none (c :: digits) = some (number : Int)) :
    integer? none ('-' :: c :: digits) = some (-(number : Int)) ↔
      (c = '0' → number < 8 ∧ (c :: digits).length ≤ Decimal.digitLimit) := by
  rw [integer?_signed]
  by_cases isZero : c = '0'
  · subst isZero
    rw [integer?] at isNumber
    split_ifs at isNumber with octal
    obtain rfl : valueIn 8 digits = number := by simpa using isNumber
    have single := number_zero_cons_eq_iff octal
    rw [← single]
    simp [and_comm]
  · rw [integer?_unsigned isFirst isZero] at isNumber
    split_ifs at isNumber with short
    cases isNumber
    simp only [if_pos short, isZero, false_imp_iff]

end Numeral

/-- The characters start with a digit, and if it is a zero, no letter that marks a radix follows. -/
def Unmarked (text : List Char) : Prop :=
  ∃ c more, text = c :: more ∧ isDigit c ∧
    (c = '0' → ∀ mark ∈ more.head?, Numeral.radix? mark = none)

/-- A letter that marks a radix does not go on with a signed literal. -/
theorem not_signed_of_marked {mark : Char} {radix : Nat} {others : List Char} {longer : Scan}
    {number : Int} (isMark : Numeral.radix? mark = some radix)
    (same : mark :: others = taken ++ rest) (ends : EndsInteger rest)
    (scans : ScansInteger ['0', '-'] taken longer number) : False := by
  have isListed := Numeral.radix?_eq_some_iff.mp isMark
  cases taken with
  | nil =>
    obtain ⟨noLetter, -⟩ := ends mark (by rw [show rest = mark :: others from same.symm]; rfl)
    rw [Numeral.isAlphanumeric_of_mem_marks isListed] at noLetter
    cases noLetter
  | cons first taken =>
    obtain ⟨rfl, -⟩ := List.cons.inj same
    obtain - | ⟨first, -⟩ := scans.runs
    cases first with
    | underscore same =>
      subst same
      cases isMark
    | digit isIn =>
      have isDigit : isDigit mark := isIn
      rw [Numeral.isDigit_eq_false_of_mem_marks isListed] at isDigit
      cases isDigit
    | mark zero => cases zero
    | other allowed =>
      rw [(Numeral.Scan.plain_of_allows allowed).2.2] at isMark
      cases isMark

/-- Digits and underscores, and what stands behind them, do not start with the letter of a radix. -/
theorem radix?_head_eq_none {taken rest : List Char} (isDigits : ∀ d ∈ taken, d = '_' ∨ isDigit d)
    (ends : EndsInteger rest) : ∀ mark ∈ (taken ++ rest).head?, Numeral.radix? mark = none := by
  intro mark isHead
  cases taken with
  | nil =>
    by_contra isMark
    obtain ⟨radix, isMark⟩ := Option.ne_none_iff_exists'.mp isMark
    have noLetter := (ends mark isHead).1
    rw [Numeral.isAlphanumeric_of_mem_marks (Numeral.radix?_eq_some_iff.mp isMark)] at noLetter
    cases noLetter
  | cons first others =>
    obtain rfl : first = mark := by simpa using isHead
    rcases isDigits first (by simp) with rfl | isDigit
    · rfl
    · exact Numeral.radix?_eq_none_of_isDigit isDigit

theorem filter_isDigit_eq {taken rest : List Char} (isDigits : ∀ d ∈ taken, d = '_' ∨ isDigit d)
    (vacant : Vacant rest) : (taken ++ rest).filter isDigit = taken.filter (· ≠ '_') := by
  have none : rest.filter isDigit = [] := by simpa using vacant.isDigit_eq_false
  rw [List.filter_append, none, List.append_nil]
  refine List.filter_congr fun d among => ?_
  rcases isDigits d among with rfl | isDigit
  · decide
  · have noUnderscore := @Numeral.ne_underscore_of_isDigitIn d .none isDigit
    simp [isDigit, noUnderscore]

/-- The scan of an integer that starts with no letter of a radix, and of the same behind a sign. -/
theorem signed_iff_of_scans {text : String} {longer : Scan} {number : Int}
    (isFirst : isDigit c) (isText : text.toList = c :: (taken ++ rest)) (ends : EndsInteger rest)
    (scans : ScansInteger [c] taken longer number) (vacant : Vacant rest)
    (noRadix : longer.radix = none) :
    Unmarked text.toList ∧
      Numeral.integer? none (text.toList.filter isDigit) = some number ∧
      ∀ signed, IsInteger ("-" ++ text) signed ↔
        Numeral.integer? none ('-' :: text.toList.filter isDigit) = some signed := by
  have isDigits := scans.runs.isDigit (by simp [start]) noRadix scans.noExponent scans.noPoint
  have digits : text.toList.filter isDigit = (c :: taken).filter (· ≠ '_') := by
    rw [isText, ← List.cons_append]
    exact filter_isDigit_eq (List.forall_mem_cons.mpr ⟨.inr isFirst, isDigits⟩) vacant
  have isSigned : ("-" ++ text).toList = [c, '-'].reverse ++ (taken ++ rest) := by
    rw [String.toList_append, isText]
    rfl
  have signedRuns : (start [c, '-']).Runs taken longer.signed :=
    scans.runs.signed (by simp [start]) noRadix
  refine ⟨⟨c, _, isText, isFirst, fun _ => radix?_head_eq_none isDigits ends⟩, ?_,
    fun signed => ?_⟩
  · have isNumber := scans.isNumber
    rwa [noRadix, show longer.text.reverse = c :: taken by simp [scans.runs.text_eq, start],
      ← digits] at isNumber
  · rw [isInteger_iff_scans (.second (by simp [startsNumber, isFirst])) isSigned, digits,
      ← scans.signed_iff noRadix]
    constructor
    · rintro ⟨other, otherRest, otherLonger, same, otherEnds, otherScans, -⟩
      obtain ⟨rfl, rfl⟩ := signedRuns.unique
        (Numeral.Scan.stopsAt_of_endsInteger scans.noExponent ends) otherScans.runs
        (Numeral.Scan.stopsAt_of_endsInteger otherScans.noExponent otherEnds) same
      exact otherScans
    · exact fun signedScans => ⟨taken, rest, longer.signed, rfl, ends, signedScans, vacant⟩

/-- Behind a minus sign the digits of an integer are read, unless a letter marks their radix. -/
theorem signed_iff {text : String} {number : Int} (read : IsInteger text number) :
    (Unmarked text.toList →
        Numeral.integer? none (text.toList.filter isDigit) = some number) ∧
      ∀ signed, IsInteger ("-" ++ text) signed ↔ Unmarked text.toList ∧
        Numeral.integer? none ('-' :: text.toList.filter isDigit) = some signed := by
  by_cases first : ∃ c more, text.toList = c :: more ∧ isDigit c
  case neg =>
    -- the integer has a sign of its own, or blanks in front of it
    have marked : ¬Unmarked text.toList := by
      rintro ⟨c, more, isText, isFirst, -⟩
      exact first ⟨c, more, isText, isFirst⟩
    exact ⟨fun unmarked => absurd unmarked marked, fun signed =>
      iff_of_false (fun read => first (exists_digit_of_signed read)) (fun both => marked both.1)⟩
  obtain ⟨c, more, isText, isFirst⟩ := first
  obtain ⟨taken, rest, longer, rfl, ends, scans, vacant⟩ :=
    (isInteger_iff_scans (.digit isFirst) isText).mp read
  by_cases noRadix : longer.radix = none
  · obtain ⟨unmarked, isNumber, signedIff⟩ :=
      signed_iff_of_scans isFirst isText ends scans vacant noRadix
    exact ⟨fun _ => isNumber, fun signed => (signedIff signed).trans (and_iff_right unmarked).symm⟩
  · -- a scan that has a radix has it from a letter behind its leading zero
    obtain ⟨radix, isRadix⟩ := Option.ne_none_iff_exists'.mp noRadix
    obtain ⟨rfl, mark, isHead, isMark⟩ := scans.runs.marked isRadix
    obtain ⟨others, rfl⟩ := List.head?_eq_some_iff.mp isHead
    have marked : ¬Unmarked text.toList := by
      rintro ⟨first, more, same, -, noMark⟩
      obtain ⟨rfl, rfl⟩ := List.cons.inj (isText.symm.trans same)
      rw [noMark rfl mark rfl] at isMark
      cases isMark
    refine ⟨fun unmarked => absurd unmarked marked, fun signed => iff_of_false ?_ (marked ·.1)⟩
    intro negated
    have isSigned : ("-" ++ text).toList = ['0', '-'].reverse ++ (mark :: others ++ rest) := by
      rw [String.toList_append, isText]
      rfl
    obtain ⟨other, otherRest, otherLonger, same, otherEnds, otherScans, -⟩ :=
      (isInteger_iff_scans (.second rfl) isSigned).mp negated
    exact not_signed_of_marked isMark same otherEnds otherScans

/-- Behind a minus sign the digits of an integer are decimal ones, and no letter can mark another
radix. So the sign negates decimal integers, and octal ones below eight. -/
theorem minus_sign_read {text : String} {number : Nat} (read : IsInteger text number) :
    (∀ signed, IsInteger ("-" ++ text) signed ↔ Unmarked text.toList ∧
        (text.toList.filter isDigit).length ≤ Decimal.digitLimit ∧
        signed = -(Decimal.number (text.toList.filter isDigit) : Int)) ∧
      (IsInteger ("-" ++ text) (-number) ↔ Unmarked text.toList ∧
        (text.toList.head? = some '0' →
          number < 8 ∧ (text.toList.filter isDigit).length ≤ Decimal.digitLimit)) := by
  obtain ⟨isNumber, signedIff⟩ := signed_iff read
  constructor
  · intro signed
    rw [signedIff, Numeral.integer?_signed]
    refine and_congr_right fun _ => ?_
    simp [eq_comm (a := signed)]
  · rw [signedIff]
    refine and_congr_right fun unmarked => ?_
    have isNumber := isNumber unmarked
    obtain ⟨c, more, isText, isFirst, -⟩ := unmarked
    rw [isText, List.filter_cons_of_pos isFirst] at isNumber ⊢
    rw [Numeral.integer?_signed_iff isFirst isNumber]
    simp

/-- Octal digits with an underscore, which are decimal ones behind the sign. -/
theorem minus_sign_read_octal :
    IsInteger "0_17 " 15 ∧ IsInteger ("-" ++ "0_17 ") (-17) ∧
      ¬IsInteger ("-" ++ "0_17 ") (-15) := by
  have read : IsInteger "0_17 " (15 : Nat) :=
    ⟨⟨.integer, "0_17", .int 15, { start := ⟨1, 1⟩, stop := ⟨1, 4⟩ }⟩,
      ⟨.eof, "", .absent, { start := ⟨1, 6⟩, stop := ⟨1, 6⟩ }⟩, by decide +kernel, rfl, rfl, rfl⟩
  have noMark : ∀ mark ∈ ['_', '1', '7', ' '].head?, Numeral.radix? mark = none := by
    rintro _ ⟨⟩
    rfl
  have unmarked : Unmarked "0_17 ".toList := ⟨'0', _, rfl, by decide, fun _ => noMark⟩
  have negative := ((minus_sign_read read).1 (-17)).mpr
    ⟨unmarked, by decide +kernel, by decide +kernel⟩
  have noOctal : ¬IsInteger ("-" ++ "0_17 ") (-15) := fun negated =>
    absurd (((minus_sign_read read).2.mp negated).2 rfl).1 (by decide)
  exact ⟨read, negative, noOctal⟩

/-- A minus sign does not negate hexadecimal digits: behind it their letter is refused. -/
theorem hexadecimal_not_negated : ¬∀ (text : String) (number : Nat), IsInteger text number →
    IsInteger ("-" ++ text) (-number) := by
  intro law
  have read : IsInteger "0x1F" (31 : Nat) :=
    ⟨⟨.integer, "0x1F", .int 31, { start := ⟨1, 1⟩, stop := ⟨1, 4⟩ }⟩,
      ⟨.eof, "", .absent, { start := ⟨1, 5⟩, stop := ⟨1, 5⟩ }⟩, by decide +kernel, rfl, rfl, rfl⟩
  obtain ⟨token, ending, all, -⟩ := law "0x1F" 31 read
  have one : ((Cursor.ofString ("-" ++ "0x1F")).tokens false).1.length = 1 := by decide +kernel
  rw [all] at one
  cases one

end LazyConfig.Token
