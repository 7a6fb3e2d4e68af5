import LazyConfig.Proofs.Token.Legible

/-!
# Scans of number literals

What a scan does with one character is a relation between scans, with one case for each rule that
goes on with a literal. A literal is taken by a row of such steps and ends where no rule applies. A
letter marks the radix only behind a zero that starts the literal, and then there is neither a point
nor an exponent in it.
-/

namespace LazyConfig.Token

namespace Numeral

open Text (isDigit isAlphanumeric isWordChar hexValue? hexDigits)

variable {text rest taken : List Char} {c d : Char} {found : Lexeme} {kind : Kind} {value : Literal}

/-! ### Digits of a radix -/

/-- The digits of a radix up to 16 are the hexadecimal digits that are worth less than it. -/
def IsDigit (radix : Nat) (c : Char) : Prop := ∃ value < radix, (c, value) ∈ hexDigits

/-- The letters that mark a radix, in either case. -/
def marks : List (Char × Nat) := [('b', 2), ('B', 2), ('o', 8), ('O', 8), ('x', 16), ('X', 16)]

theorem radix?_eq_some_iff {radix : Nat} : radix? c = some radix ↔ (c, radix) ∈ marks := by
  constructor
  · intro isMark
    unfold radix? at isMark
    split at isMark <;> cases isMark <;> decide
  · intro listed
    have all : ∀ mark ∈ marks, radix? mark.1 = some mark.2 := by decide
    exact all _ listed

theorem isAlphanumeric_of_mem_marks {radix : Nat} (isMark : (c, radix) ∈ marks) :
    isAlphanumeric c := by
  have all : ∀ mark ∈ marks, isAlphanumeric mark.1 := by decide +kernel
  exact all _ isMark

theorem isDigit_eq_false_of_mem_marks {radix : Nat} (isMark : (c, radix) ∈ marks) :
    isDigit c = false := by
  have all : ∀ mark ∈ marks, isDigit mark.1 = false := by decide
  exact all _ isMark

theorem radix?_eq_none_of_isDigit (isFirst : isDigit c) : radix? c = none := by
  by_contra isMark
  obtain ⟨radix, isMark⟩ := Option.ne_none_iff_exists'.mp isMark
  rw [isDigit_eq_false_of_mem_marks (radix?_eq_some_iff.mp isMark)] at isFirst
  cases isFirst

/-- The radixes of scans. -/
def radixes : List (Option Nat) := [none, some 2, some 8, some 16]

theorem none_mem_radixes : none ∈ radixes := List.mem_cons_self

theorem radix?_mem_radixes (c : Char) : radix? c ∈ radixes := by
  unfold radix?
  split <;> decide

theorem isHexDigit_of_isDigitIn {radix : Option Nat} (isIn : isDigitIn radix c) :
    Text.isHexDigit c := by
  unfold isDigitIn at isIn
  split at isIn
  · exact isHexDigit_of_isDigit isIn
  · exact isIn
  · exact isHexDigit_of_isDigit (Bool.and_eq_true_iff.mp isIn).1

theorem isDigitIn_eq {radix : Option Nat} (listed : radix ∈ radixes) (c : Char) :
    isDigitIn radix c = (hexValue? c).any (· < radix.getD 10) := by
  by_cases isHex : Text.isHexDigit c
  · -- there are few such digits, and all characters up to the last of them are tried
    have all : ∀ radix ∈ radixes, ∀ n < 103,
        isDigitIn radix (Char.ofNat n) == (hexValue? (Char.ofNat n)).any (· < radix.getD 10) := by
      decide +kernel
    have same := Text.holds_of_toNat_lt
      (p := fun c => isDigitIn radix c == (hexValue? c).any (· < radix.getD 10))
      (all radix listed) (Text.toNat_lt_of_isHexDigit isHex)
    exact eq_of_beq same
  · have noDigit : isDigitIn radix c = false := by
      simpa using mt isHexDigit_of_isDigitIn isHex
    have noValue : hexValue? c = none := by simpa [Text.isHexDigit] using isHex
    rw [noDigit, noValue]
    rfl

theorem isDigitIn_iff {radix : Option Nat} (listed : radix ∈ radixes) :
    isDigitIn radix c ↔ IsDigit (radix.getD 10) c := by
  rw [isDigitIn_eq listed]
  simp only [IsDigit, ← Text.hexValue?_eq_some_iff, Option.any_eq_true, decide_eq_true_eq]
  exact exists_congr fun value => and_comm

theorem ne_underscore_of_isDigitIn {radix : Option Nat} (isIn : isDigitIn radix c) : c ≠ '_' := by
  rintro rfl
  exact absurd (isHexDigit_of_isDigitIn isIn) (by decide)

/-! ### Steps -/

namespace Scan

variable {s next longer : Scan}

/-- The literal goes on with the character, and is the longer one then. -/
inductive Extends (s : Scan) (c : Char) : Scan → Prop
  | underscore (same : c = '_') (afterDigit : s.afterDigit) : Extends s c (s.push c)
  | digit (isIn : isDigitIn s.radix c) : Extends s c { s.push c with afterDigit := true }
  | mark (zero : s.text = ['0']) (noDigit : isDigitIn s.radix c = false)
      (isMark : (radix? c).isSome) : Extends s c { s.push c with radix := radix? c }
  | other (allowed : s.allows c) :
      Extends s c { s.push c with inExponent := s.inExponent || isExponentMark c }

theorem Extends.text_eq (extended : Extends s c longer) : longer.text = c :: s.text := by
  cases extended <;> rfl

/-- Points, signs and exponent marks belong to decimal literals. -/
theorem allows_cases (allowed : s.allows c) :
    s.radix = none ∧ (c = '.' ∧ '.' ∉ s.text ∨
      (c = '+' ∨ c = '-') ∧ s.inExponent ∧ s.text.head? ≠ some '_' ∨
      (c = 'e' ∨ c = 'E') ∧ s.text.head? ≠ some '_') := by
  simp only [allows, Bool.and_eq_true, Bool.or_eq_true, Option.isNone_iff_eq_none,
    decide_eq_true_eq] at allowed
  obtain ⟨noRadix, (⟨⟨isPoint, -⟩, noPoint⟩ | ⟨⟨isSign, inExponent⟩, behindMark⟩) |
    ⟨⟨isMark, -⟩, noUnderscore⟩⟩ := allowed
  · exact ⟨noRadix, .inl ⟨isPoint, by simpa using noPoint⟩⟩
  · refine ⟨noRadix, .inr (.inl ⟨isSign, inExponent, ?_⟩)⟩
    intro isUnderscore
    rw [isUnderscore] at behindMark
    exact absurd behindMark (by decide)
  · exact ⟨noRadix, .inr (.inr ⟨by simpa [isExponentMark] using isMark, noUnderscore⟩)⟩

theorem plain_of_allows (allowed : s.allows c) :
    c ≠ '_' ∧ isDigitIn s.radix c = false ∧ radix? c = none := by
  obtain ⟨noRadix, ⟨rfl, -⟩ | ⟨rfl | rfl, -⟩ | ⟨rfl | rfl, -⟩⟩ := allows_cases allowed <;>
    rw [noRadix] <;> decide

theorem step_eq_extend_iff : s.step c = .extend longer ↔ Extends s c longer := by
  constructor
  · intro extended
    unfold step at extended
    split_ifs at extended with isUnderscore afterDigit isIn isMark allowed
    · cases extended
      exact .underscore isUnderscore afterDigit
    · cases extended
      exact .digit isIn
    · cases extended
      exact .mark isMark.1 (by simpa using isIn) isMark.2
    · cases extended
      exact .other allowed
  · intro extended
    cases extended with
    | underscore same afterDigit => simp [step, same, afterDigit]
    | digit isIn => simp [step, ne_underscore_of_isDigitIn isIn, isIn]
    | mark zero noDigit isMark =>
      have noUnderscore : c ≠ '_' := by
        rintro rfl
        exact absurd isMark (by decide)
      simp only [step, if_neg noUnderscore, noDigit, Bool.false_eq_true, if_false,
        if_pos (And.intro zero isMark)]
    | other allowed =>
      obtain ⟨noUnderscore, noDigit, noMark⟩ := plain_of_allows allowed
      simp [step, noUnderscore, noDigit, noMark, allowed]

theorem step_eq_finish (noUnderscore : c ≠ '_') (stops : ∀ longer, ¬Extends s c longer) :
    s.step c = .finish := by
  cases stepped : s.step c with
  | extend longer => exact absurd (step_eq_extend_iff.mp stepped) (stops longer)
  | finish => rfl
  | misplacedUnderscore =>
    unfold step at stepped
    split_ifs at stepped with isUnderscore
    exact absurd isUnderscore noUnderscore

/-- What a literal can go on with. -/
theorem Extends.char (extended : Extends s c longer) :
    c = '_' ∨ isAlphanumeric c ∨ c = '.' ∨ (c = '+' ∨ c = '-') ∧ s.inExponent := by
  have ofWord (isWord : isWordChar c) : c = '_' ∨ isAlphanumeric c := by
    simpa [isWordChar, or_comm] using isWord
  cases extended with
  | underscore same => exact .inl same
  | digit isIn => exact (ofWord (isWordChar_of_isDigitIn isIn)).imp_right .inl
  | mark _ _ isMark =>
    obtain ⟨radix, isMark⟩ := Option.isSome_iff_exists.mp isMark
    exact .inr (.inl (isAlphanumeric_of_mem_marks (radix?_eq_some_iff.mp isMark)))
  | other allowed =>
    have isLetter : isAlphanumeric 'e' ∧ isAlphanumeric 'E' := by decide +kernel
    obtain ⟨-, ⟨isPoint, -⟩ | ⟨isSign, inExponent, -⟩ | ⟨rfl | rfl, -⟩⟩ := allows_cases allowed
    · exact .inr (.inr (.inl isPoint))
    · exact .inr (.inr (.inr ⟨isSign, inExponent⟩))
    · exact .inr (.inl isLetter.1)
    · exact .inr (.inl isLetter.2)

/-- The literal goes on with all of the characters. -/
inductive Runs : Scan → List Char → Scan → Prop
  | refl (s : Scan) : Runs s [] s
  | cons {s next longer : Scan} {c : Char} {taken : List Char} (first : Extends s c next)
      (others : Runs next taken longer) : Runs s (c :: taken) longer

theorem Runs.trans {more : List Char} {longest : Scan} (runs : Runs s taken longer)
    (others : Runs longer more longest) : Runs s (taken ++ more) longest := by
  induction runs with
  | refl => exact others
  | cons first _ ih => exact .cons first (ih others)

/-- The literal ends in front of the text. -/
def StopsAt (s : Scan) (rest : List Char) : Prop := ∀ d ∈ rest.head?, s.step d = .finish

theorem run_of_stopsAt (stops : s.StopsAt rest) : s.run rest = .ok (s, rest) := by
  cases rest with
  | nil => rfl
  | cons d rest => rw [run, stops d rfl]

theorem Runs.run_append (runs : Runs s taken longer) (rest : List Char) :
    s.run (taken ++ rest) = longer.run rest := by
  induction runs with
  | refl => rfl
  | cons first _ ih =>
    rw [List.cons_append, run, step_eq_extend_iff.mpr first]
    exact ih

theorem run_eq_ok_iff : s.run text = .ok (longer, rest) ↔
    ∃ taken, text = taken ++ rest ∧ Runs s taken longer ∧ longer.StopsAt rest := by
  constructor
  · intro ran
    induction text generalizing s with
    | nil =>
      cases ran
      exact ⟨[], rfl, .refl _, by simp [StopsAt]⟩
    | cons c text ih =>
      unfold run at ran
      split at ran
      case h_1 next extended =>
        obtain ⟨taken, rfl, runs, stops⟩ := ih ran
        exact ⟨c :: taken, rfl, .cons (step_eq_extend_iff.mp extended) runs, stops⟩
      case h_2 finished =>
        cases ran
        exact ⟨[], rfl, .refl _, by simpa [StopsAt] using finished⟩
      case h_3 => cases ran
  · rintro ⟨taken, rfl, runs, stops⟩
    rw [runs.run_append, run_of_stopsAt stops]

theorem Runs.text_eq (runs : Runs s taken longer) : longer.text = taken.reverse ++ s.text := by
  induction runs with
  | refl => rfl
  | cons first _ ih => rw [ih, first.text_eq, List.reverse_cons, List.append_assoc]; rfl

/-- The radix is settled by the second character. -/
theorem Runs.radix_eq (runs : s.Runs taken longer) (long : 2 ≤ s.text.length) :
    longer.radix = s.radix := by
  induction runs with
  | refl => rfl
  | cons first _ ih =>
    have grown := congrArg List.length first.text_eq
    rw [ih (by rw [grown, List.length_cons]; omega)]
    cases first with
    | mark zero => simp [zero] at long
    | _ => rfl

/-- A text is taken in one way only. -/
theorem Runs.unique {other otherRest : List Char} {otherLonger : Scan}
    (runs : Runs s taken longer) (stops : longer.StopsAt rest)
    (otherRuns : Runs s other otherLonger) (otherStops : otherLonger.StopsAt otherRest)
    (same : taken ++ rest = other ++ otherRest) : taken = other ∧ longer = otherLonger := by
  have ran := run_eq_ok_iff.mpr ⟨taken, rfl, runs, stops⟩
  rw [same, run_eq_ok_iff.mpr ⟨other, rfl, otherRuns, otherStops⟩] at ran
  cases ran
  exact ⟨List.append_cancel_right same, rfl⟩

/-- What every step keeps holds at the end of a literal. -/
theorem Runs.invariant {p : Scan → Prop}
    (kept : ∀ s c next, p s → Extends s c next → p next) (runs : Runs s taken longer)
    (start : p s) : p longer := by
  induction runs with
  | refl => exact start
  | cons first _ ih => exact ih (kept _ _ _ start first)

/-! ### Ends -/

/-- What stands behind a literal is neither a point nor alphanumeric. -/
def Apart (rest : List Char) : Prop := ∀ d ∈ rest.head?, d ≠ '.' ∧ isAlphanumeric d = false

theorem close_eq_ok_iff {mark : List Char} : s.close mark = .ok found ↔
    ∃ kind value, s.value? (mark ≠ []) = some (kind, value) ∧
      found = ⟨kind, s.text.length + mark.length, value, mark = []⟩ := by
  unfold close
  dsimp only
  cases isValue : s.value? (mark ≠ []) with
  | none => simp
  | some result =>
    obtain ⟨kind, value⟩ := result
    simp only [Except.ok.injEq, Option.some.injEq, Prod.mk.injEq]
    constructor
    · rintro rfl
      exact ⟨kind, value, ⟨rfl, rfl⟩, rfl⟩
    · rintro ⟨_, _, ⟨rfl, rfl⟩, rfl⟩
      rfl

/-- Literals with a point, an exponent or an imaginary mark are no integers. -/
theorem value?_eq_integer_iff {imaginary : Bool} :
    s.value? imaginary = some (.integer, value) ↔
      imaginary = false ∧ s.inExponent = false ∧ '.' ∉ s.text ∧
        ∃ n, integer? s.radix (s.text.reverse.filter (· ≠ '_')) = some n ∧ value = .int n := by
  unfold value?
  dsimp only
  split_ifs with isImaginary isFraction
  · simp [isImaginary]
  · simp only [Bool.or_eq_true, List.contains_iff_mem] at isFraction
    rcases isFraction with inExponent | hasPoint
    · simp [inExponent]
    · simp [hasPoint]
  · simp only [Bool.or_eq_true, List.contains_iff_mem, not_or] at isFraction
    simp only [isImaginary, isFraction, not_false_iff, true_and, Option.map_eq_some_iff,
      Prod.mk.injEq, eq_comm (b := value)]

/-- The mark of an imaginary number, if any, belongs to a decimal literal. -/
def Marked (s : Scan) (mark tail : List Char) : Prop :=
  mark = [] ∧ Apart tail ∨ s.radix = none ∧ (mark = ['j'] ∨ mark = ['J'])

theorem finish_eq_ok_iff : s.finish rest = .ok found ↔ s.text.head? ≠ some '_' ∧
    ∃ mark tail, rest = mark ++ tail ∧ s.Marked mark tail ∧ s.close mark = .ok found := by
  have isLetter : isAlphanumeric 'j' ∧ isAlphanumeric 'J' := by decide +kernel
  unfold finish
  by_cases isUnderscore : s.text.head? = some '_'
  · simp [isUnderscore]
  rw [if_neg isUnderscore]
  constructor
  · intro finished
    refine ⟨isUnderscore, ?_⟩
    split at finished
    case h_1 => exact ⟨[], [], rfl, .inl ⟨rfl, by simp [Apart]⟩, finished⟩
    case h_2 c tail =>
      split_ifs at finished with isMark goesOn
      · refine ⟨[c], tail, rfl, .inr ⟨isMark.1, ?_⟩, finished⟩
        exact isMark.2.imp (congrArg (· :: [])) (congrArg (· :: []))
      · exact ⟨[], c :: tail, rfl, .inl ⟨rfl, by simpa [Apart] using goesOn⟩, finished⟩
  · rintro ⟨-, mark, tail, rfl, ⟨rfl, apart⟩ | ⟨noRadix, rfl | rfl⟩, closed⟩
    · cases tail with
      | nil => exact closed
      | cons d tail =>
        obtain ⟨noPoint, noLetter⟩ := apart d rfl
        have noMark : d ≠ 'j' ∧ d ≠ 'J' := by
          constructor <;> rintro rfl <;> simp [isLetter] at noLetter
        simpa [noMark, noPoint, noLetter] using closed
    · simpa [noRadix] using closed
    · simpa [noRadix] using closed

theorem finish_eq_integer_iff : s.finish rest = .ok found ∧ found.kind = .integer ↔
    s.text.head? ≠ some '_' ∧ Apart rest ∧ s.inExponent = false ∧ '.' ∉ s.text ∧
      ∃ n, integer? s.radix (s.text.reverse.filter (· ≠ '_')) = some n ∧
        found = ⟨.integer, s.text.length, .int n, true⟩ := by
  constructor
  · rintro ⟨finished, isInteger⟩
    obtain ⟨noUnderscore, mark, tail, rfl, marked, closed⟩ := finish_eq_ok_iff.mp finished
    obtain ⟨kind, value, isValue, rfl⟩ := close_eq_ok_iff.mp closed
    obtain rfl : kind = .integer := isInteger
    obtain ⟨noMark, noExponent, noPoint, n, isNumber, rfl⟩ := value?_eq_integer_iff.mp isValue
    obtain rfl : mark = [] := by simpa using noMark
    have apart : Apart tail := marked.elim (·.2) fun ⟨_, isMark⟩ => by simp at isMark
    exact ⟨noUnderscore, apart, noExponent, noPoint, n, isNumber, rfl⟩
  · rintro ⟨noUnderscore, apart, noExponent, noPoint, n, isNumber, rfl⟩
    have isInteger : s.value? (([] : List Char) ≠ []) = some (.integer, .int n) :=
      value?_eq_integer_iff.mpr ⟨rfl, noExponent, noPoint, n, isNumber, rfl⟩
    refine ⟨finish_eq_ok_iff.mpr ⟨noUnderscore, [], rest, rfl, .inl ⟨rfl, apart⟩, ?_⟩, rfl⟩
    exact close_eq_ok_iff.mpr ⟨_, _, isInteger, rfl⟩

/-- Behind the digits of another radix than ten nothing but the end of the literal can stand. -/
theorem finish_refused {radix : Nat} (isRadix : s.radix = some radix)
    (noUnderscore : s.text.head? ≠ some '_') (goesOn : c = '.' ∨ isAlphanumeric c)
    (rest : List Char) :
    s.finish (c :: rest) =
      .error ⟨.number c.toString, s.text.length, s.text.length + 1, false⟩ := by
  simp [finish, noUnderscore, isRadix, goesOn]

end Scan

/-! ### Literals -/

/-- The scan of a literal that starts with the characters of `opening`, the last of them first. -/
def start (opening : List Char) : Scan :=
  { text := opening, afterDigit := opening.head?.any isDigit }

/-- A literal of another radix than ten starts with its mark. -/
theorem Scan.Runs.marked {longer : Scan} {radix : Nat} (runs : (start [c]).Runs taken longer)
    (isRadix : longer.radix = some radix) :
    c = '0' ∧ ∃ mark ∈ taken.head?, radix? mark = some radix := by
  cases runs with
  | refl => cases isRadix
  | cons first others =>
    have grown := congrArg List.length first.text_eq
    rw [others.radix_eq (by simp [grown, start])] at isRadix
    cases first with
    | mark zero => exact ⟨List.head_eq_of_cons_eq zero, _, rfl, isRadix⟩
    | _ => cases isRadix

theorem read_of_run {opening : List Char} {longer : Scan}
    (ran : (start opening).run text = .ok (longer, rest)) :
    read opening text = longer.finish rest := by
  change ((start opening).run text).bind (fun result => result.1.finish result.2) = _
  rw [ran]
  rfl

theorem read_eq_ok_iff {opening : List Char} : read opening text = .ok found ↔
    ∃ taken rest longer, text = taken ++ rest ∧ (start opening).Runs taken longer ∧
      longer.StopsAt rest ∧ longer.finish rest = .ok found := by
  constructor
  · intro done
    cases ran : (start opening).run text with
    | error misread =>
      change ((start opening).run text).bind (fun result => result.1.finish result.2) = _ at done
      rw [ran] at done
      cases done
    | ok result =>
      obtain ⟨longer, rest⟩ := result
      rw [read_of_run ran] at done
      obtain ⟨taken, rfl, runs, stops⟩ := Scan.run_eq_ok_iff.mp ran
      exact ⟨taken, rest, longer, rfl, runs, stops, done⟩
  · rintro ⟨taken, rest, longer, rfl, runs, stops, finished⟩
    rw [read_of_run (Scan.run_eq_ok_iff.mpr ⟨taken, rfl, runs, stops⟩)]
    exact finished

/-- The characters that a literal starts with, the last of them first: a digit, or a point or a
minus sign in front of what makes a number of it. -/
inductive Opens : List Char → Prop
  | digit {c : Char} (isFirst : isDigit c) : Opens [c]
  | second {c d : Char} (starts : startsNumber c d) : Opens [d, c]

theorem plain_of_isDigit (isFirst : isDigit c) : IsPlain c ∧ ¬Text.isBlank c = true := by
  have all : ∀ n < 103, isDigit (Char.ofNat n) → ¬Text.isBlank (Char.ofNat n) = true := by
    decide +kernel
  have notBlank := all c.toNat (Text.toNat_lt_of_isHexDigit (isHexDigit_of_isDigit isFirst))
  rw [Char.ofNat_toNat] at notBlank
  refine ⟨⟨?_, ?_, ?_, ?_⟩, notBlank isFirst⟩ <;> rintro rfl <;> exact absurd isFirst (by decide)

theorem lexeme_of_digit (isFirst : isDigit c) (text : List Char) :
    lexeme c text = read [c] text := by
  have noStart := isWordStart_of_isDigit isFirst
  have noQuote : c ≠ '`' ∧ ¬(c = '\'' ∨ c = '"') := by
    constructor
    · rintro rfl
      exact absurd isFirst (by decide)
    · rintro (rfl | rfl) <;> exact absurd isFirst (by decide)
  simp [lexeme, noStart, noQuote, isFirst]

theorem eq_of_startsNumber (starts : startsNumber c d) : c = '.' ∨ c = '-' := by
  simp only [startsNumber, Bool.or_eq_true, Bool.and_eq_true, decide_eq_true_eq] at starts
  exact starts.elim (·.1) (.inr ·.1)

theorem lexeme_of_startsNumber (starts : startsNumber c d) (text : List Char) :
    lexeme c (d :: text) = read [d, c] text := by
  obtain ⟨kind, isMark⟩ : ∃ kind, mark? c = some kind := by
    rcases eq_of_startsNumber starts with rfl | rfl <;> exact ⟨_, rfl⟩
  rw [lexeme_of_mark isMark]
  exact if_pos starts

theorem Opens.plain {opening : List Char} (opens : Opens opening)
    (same : opening.reverse ++ text = c :: rest) : IsPlain c ∧ ¬Text.isBlank c = true := by
  cases opens with
  | digit isFirst =>
    obtain ⟨rfl, rfl⟩ := List.cons.inj same
    exact plain_of_isDigit isFirst
  | second starts =>
    obtain ⟨rfl, rfl⟩ := List.cons.inj same
    rcases eq_of_startsNumber starts with rfl | rfl <;>
      exact ⟨⟨by decide, by decide, by decide, by decide⟩, by decide +kernel⟩

/-- The literal is read where its first characters are found. -/
theorem Opens.lexeme_eq {opening : List Char} (opens : Opens opening)
    (same : opening.reverse ++ text = c :: rest) : lexeme c rest = read opening text := by
  cases opens with
  | digit isFirst =>
    obtain ⟨rfl, rfl⟩ := List.cons.inj same
    exact lexeme_of_digit isFirst text
  | second starts =>
    obtain ⟨rfl, rfl⟩ := List.cons.inj same
    exact lexeme_of_startsNumber starts text

end Numeral

/-- The kinds of number literals. -/
def Kind.isNumber (k : Kind) : Bool := [.integer, .float, .complex].contains k

variable {c : Char}

/-- A number is read by the scan of its first characters. -/
theorem opens_of_lexeme {rest : List Char} {found : Lexeme}
    (isFound : lexeme c rest = .ok found) (isNumber : found.kind.isNumber) :
    ∃ opening text, Numeral.Opens opening ∧ opening.reverse ++ text = c :: rest ∧
      Numeral.read opening text = .ok found := by
  have among : found.kind ∈ [Kind.integer, .float, .complex] := List.contains_iff_mem.mp isNumber
  have mark {kind : Kind} (isKind : found.kind = kind)
      (others : kind ∉ [.eof, .newline, .word, .string, .backTick, .integer, .float, .complex]) :
      False := by
    have numbers : ∀ kind ∈ [Kind.integer, .float, .complex],
        kind ∈ [Kind.eof, .newline, .word, .string, .backTick, .integer, .float, .complex] := by
      decide
    subst isKind
    exact others (numbers _ among)
  cases isMark : mark? c with
  | some kind =>
    rw [lexeme_of_mark isMark] at isFound
    split at isFound
    case h_1 =>
      cases isFound
      exact (mark rfl (mark?_kind isMark)).elim
    case h_2 second tail =>
      split at isFound
      case isTrue starts => exact ⟨[second, c], tail, .second starts, rfl, isFound⟩
      case isFalse =>
        split at isFound
        case h_1 isDouble =>
          cases isFound
          exact (mark rfl (doubleMark?_kind isDouble)).elim
        case h_2 =>
          cases isFound
          exact (mark rfl (mark?_kind isMark)).elim
  | none =>
    unfold lexeme at isFound
    split at isFound
    · cases isFound
      exact absurd (List.mem_append_right [Kind.eof, .newline] among) (word_kind _)
    split at isFound
    · rw [Quotation.backtick_kind isFound] at among
      exact absurd among (by decide)
    split at isFound
    · rw [Quotation.string_kind isFound] at among
      exact absurd among (by decide)
    split at isFound
    case isTrue isFirst => exact ⟨[c], rest, .digit isFirst, rfl, isFound⟩
    case isFalse =>
      rw [isMark] at isFound
      cases isFound

end LazyConfig.Token
