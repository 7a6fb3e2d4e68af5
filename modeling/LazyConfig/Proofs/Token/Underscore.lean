import LazyConfig.Proofs.Token.Integer

/-!
# Underscores in number literals

Each underscore of a literal stands behind a digit, and in front of another one or of the point.
Nothing else depends on it: without the underscores the same number is read.
-/

namespace LazyConfig.Token

open Text (isDigit)

variable {taken mark opening : List Char} {c : Char} {kind : Kind} {value : Literal}

namespace Numeral

variable {s next longer : Scan}

/-! ### What stands around an underscore -/

/-- An underscore stands behind a digit, and in front of a digit or of a point. -/
def Joins (radix : Option Nat) (later earlier : Char) : Prop :=
  (later = '_' → isDigitIn radix earlier) ∧
    (earlier = '_' → isDigitIn radix later ∨ later = '.' ∧ radix = none)

theorem joins_of_ne {radix : Option Nat} {later earlier : Char} (noLater : later ≠ '_')
    (noEarlier : earlier ≠ '_') : Joins radix later earlier :=
  ⟨fun same => absurd same noLater, fun same => absurd same noEarlier⟩

/-- All underscores of the literal stand where they should, so far, and it knows whether a digit
has been read last. -/
structure Scan.Spaced (s : Scan) : Prop where
  joins : s.text.IsChain (Joins s.radix)
  afterDigit : s.afterDigit → ∀ d ∈ s.text.head?, isDigitIn s.radix d

theorem Opens.underscore_not_mem (opens : Opens opening) : '_' ∉ opening := by
  cases opens with
  | @digit c isFirst =>
    have noUnderscore := @ne_underscore_of_isDigitIn c none isFirst
    simpa using noUnderscore.symm
  | @second c d starts =>
    have noUnderscore : d ≠ '_' := by
      rintro rfl
      simp [startsNumber, show isDigit '_' = false by decide] at starts
    rcases eq_of_startsNumber starts with rfl | rfl <;> simpa using noUnderscore.symm

theorem Opens.spaced (opens : Opens opening) : (start opening).Spaced := by
  have noUnderscore := opens.underscore_not_mem
  cases opens with
  | @digit c isFirst => exact ⟨.singleton c, by simp [start, isDigitIn]⟩
  | @second c d starts =>
    have apart : d ≠ '_' ∧ c ≠ '_' := by simpa [eq_comm] using noUnderscore
    refine ⟨.cons_cons (joins_of_ne apart.1 apart.2) (.singleton c), ?_⟩
    simp [start, isDigitIn]

theorem Scan.Extends.spaced (extended : s.Extends c next) (spaced : s.Spaced) : next.Spaced := by
  cases extended with
  | underscore same afterDigit =>
    refine ⟨List.isChain_cons.mpr ⟨fun d isHead => ?_, spaced.joins⟩, by simp [push]⟩
    have isIn := spaced.afterDigit afterDigit d isHead
    exact ⟨fun _ => isIn, fun same => absurd same (ne_underscore_of_isDigitIn isIn)⟩
  | digit isIn =>
    refine ⟨List.isChain_cons.mpr ⟨fun d _ => ?_, spaced.joins⟩,
      fun _ => by simpa [push] using isIn⟩
    exact ⟨fun same => absurd same (ne_underscore_of_isDigitIn isIn), fun _ => .inl isIn⟩
  | mark zero noDigit isMark =>
    have noUnderscore : c ≠ '_' := by
      rintro rfl
      cases isMark
    refine ⟨?_, by simp [push]⟩
    simp only [push, zero]
    exact .cons_cons (joins_of_ne noUnderscore (by decide)) (.singleton '0')
  | other allowed =>
    obtain ⟨noUnderscore, -, -⟩ := plain_of_allows allowed
    refine ⟨List.isChain_cons.mpr ⟨fun d isHead => ?_, spaced.joins⟩, by simp [push]⟩
    refine ⟨fun same => absurd same noUnderscore, ?_⟩
    rintro rfl
    obtain ⟨noRadix, ⟨isPoint, -⟩ | ⟨-, -, noUnderscore⟩ | ⟨-, noUnderscore⟩⟩ :=
      allows_cases allowed
    · exact .inr ⟨isPoint, noRadix⟩
    · exact absurd isHead noUnderscore
    · exact absurd isHead noUnderscore

/-! ### Literals without their underscores -/

/-- The literal without its underscores. -/
def Scan.stripped (s : Scan) (afterDigit : Bool) : Scan :=
  { s with text := s.text.filter (· ≠ '_'), afterDigit }

theorem Scan.head?_stripped_ne (s : Scan) (afterDigit : Bool) :
    (s.stripped afterDigit).text.head? ≠ some '_' := by
  intro isHead
  simpa using List.of_mem_filter (List.mem_of_head? isHead)

theorem Scan.contains_stripped (s : Scan) (afterDigit : Bool) :
    (s.stripped afterDigit).text.contains '.' = s.text.contains '.' := by
  rw [Bool.eq_iff_iff, List.contains_iff_mem, List.contains_iff_mem]
  simp [stripped]

theorem Scan.allows_stripped (allowed : s.allows c) (afterDigit : Bool) :
    (s.stripped afterDigit).allows c := by
  -- a character that is no underscore stays at the end
  have sameHead : s.text.head?.any isExponentMark →
      (s.stripped afterDigit).text.head?.any isExponentMark := by
    intro isAfter
    cases isText : s.text with
    | nil => simp [isText] at isAfter
    | cons d others =>
      have isMark : isExponentMark d := by simpa [isText] using isAfter
      have noUnderscore : d ≠ '_' := by
        rintro rfl
        exact absurd isMark (by decide)
      simp [stripped, isText, noUnderscore, isMark]
  have noUnderscore := s.head?_stripped_ne afterDigit
  simp only [allows, Bool.and_eq_true, Bool.or_eq_true, decide_eq_true_eq,
    contains_stripped] at allowed ⊢
  obtain ⟨noRadix, (point | ⟨sign, isAfter⟩) | ⟨isMark, -⟩⟩ := allowed
  · exact ⟨noRadix, .inl (.inl point)⟩
  · exact ⟨noRadix, .inl (.inr ⟨sign, sameHead isAfter⟩)⟩
  · exact ⟨noRadix, .inr ⟨isMark, noUnderscore⟩⟩

/-- An underscore adds nothing, and what follows it goes on with the literal without it, too. -/
theorem Scan.Extends.stripped (extended : s.Extends c next) (afterDigit : Bool) :
    ∃ behind, (s.stripped afterDigit).Runs ([c].filter (· ≠ '_')) (next.stripped behind) := by
  have isText := extended.text_eq
  have other (noUnderscore : c ≠ '_') (behind : Bool)
      (extended : (s.stripped afterDigit).Extends c { next with
        text := c :: s.text.filter (· ≠ '_'), afterDigit := behind }) :
      ∃ behind, (s.stripped afterDigit).Runs ([c].filter (· ≠ '_')) (next.stripped behind) := by
    have pushed : next.text.filter (· ≠ '_') = c :: s.text.filter (· ≠ '_') := by
      rw [isText]
      exact List.filter_cons_of_pos (by simpa using noUnderscore)
    rw [List.filter_cons_of_pos (by simpa using noUnderscore)]
    rw [← pushed] at extended
    exact ⟨behind, .cons extended (.refl _)⟩
  cases extended with
  | underscore same =>
    subst same
    exact ⟨afterDigit, .refl _⟩
  | digit isIn => exact other (ne_underscore_of_isDigitIn isIn) true (.digit isIn)
  | mark zero noDigit isMark =>
    have noUnderscore : c ≠ '_' := by
      rintro rfl
      cases isMark
    exact other noUnderscore false (.mark (by simp [stripped, zero]) noDigit isMark)
  | other allowed =>
    exact other (plain_of_allows allowed).1 false (.other (allows_stripped allowed afterDigit))

theorem Scan.Runs.stripped (runs : s.Runs taken longer) (afterDigit : Bool) :
    ∃ behind, (s.stripped afterDigit).Runs (taken.filter (· ≠ '_')) (longer.stripped behind) := by
  induction runs generalizing afterDigit with
  | refl s => exact ⟨afterDigit, .refl _⟩
  | @cons s next longer c taken first _ ih =>
    obtain ⟨between, step⟩ := first.stripped afterDigit
    obtain ⟨behind, others⟩ := ih between
    refine ⟨behind, ?_⟩
    rw [← List.singleton_append, List.filter_append]
    exact step.trans others

theorem Scan.value?_stripped (s : Scan) (afterDigit imaginary : Bool) :
    (s.stripped afterDigit).value? imaginary = s.value? imaginary := by
  have sameDigits : (s.stripped afterDigit).text.reverse.filter (· ≠ '_') =
      s.text.reverse.filter (· ≠ '_') := by
    simp [stripped]
  unfold value?
  rw [sameDigits, contains_stripped]
  rfl

/-! ### Literals -/

/-- The digits behind a leading zero are octal. -/
theorem octal_of_integer? {text : List Char} {number : Int}
    (isNumber : integer? none (('0' :: text).filter (· ≠ '_')) = some number) :
    ∀ d ∈ text, d = '_' ∨ isDigitIn (some 8) d := by
  rw [List.filter_cons_of_pos (by decide), integer?] at isNumber
  split_ifs at isNumber with octal
  intro d among
  by_cases same : d = '_'
  · exact .inl same
  · exact .inr (List.all_eq_true.mp octal d (List.mem_filter.mpr ⟨among, by simpa using same⟩))

/-- Neither a point nor an exponent stands in front of the letter of a radix or behind it. -/
structure Scan.Whole (s : Scan) : Prop where
  some : s.text ≠ []
  noFraction : s.radix ≠ none ∨ s.text = ['0'] → s.inExponent = false ∧ '.' ∉ s.text

theorem Opens.whole (opens : Opens opening) : (start opening).Whole := by
  cases opens with
  | digit => exact ⟨by simp [start], by simp +contextual [start]⟩
  | second => exact ⟨by simp [start], by simp [start]⟩

theorem Scan.Extends.whole (extended : s.Extends c next) (whole : s.Whole) : next.Whole := by
  have some : next.text ≠ [] := by simp [extended.text_eq]
  have longer : next.text ≠ ['0'] := by simp [extended.text_eq, whole.some]
  have grown (noPoint : '.' ∉ s.text) (isOther : c ≠ '.') : '.' ∉ next.text := by
    simp [extended.text_eq, isOther.symm, noPoint]
  refine ⟨some, fun begun => ?_⟩
  have isRadix := begun.resolve_right longer
  cases extended with
  | underscore same =>
    obtain ⟨noExponent, noPoint⟩ := whole.noFraction (.inl isRadix)
    exact ⟨noExponent, grown noPoint (by simp [same])⟩
  | digit isIn =>
    obtain ⟨noExponent, noPoint⟩ := whole.noFraction (.inl isRadix)
    refine ⟨noExponent, grown noPoint ?_⟩
    rintro rfl
    exact absurd (isHexDigit_of_isDigitIn isIn) (by decide)
  | mark zero _ isMark =>
    obtain ⟨noExponent, noPoint⟩ := whole.noFraction (.inr zero)
    refine ⟨noExponent, grown noPoint ?_⟩
    rintro rfl
    cases isMark
  | other allowed => exact absurd (allows_cases allowed).1 isRadix

/-- A literal with the given opening goes on with the characters, up to the mark of an imaginary
number if there is one, and the scan of them denotes a value. -/
structure Scans (opening taken mark : List Char) (longer : Scan) (kind : Kind) (value : Literal) :
    Prop where
  opens : Opens opening
  runs : (start opening).Runs taken longer
  noUnderscore : longer.text.head? ≠ some '_'
  isMark : mark = [] ∨ longer.radix = none ∧ (mark = ['j'] ∨ mark = ['J'])
  isValue : longer.value? (mark ≠ []) = some (kind, value)

namespace Scans

variable {before after : List Char}

theorem underscore_not_mem_mark (scans : Scans opening taken mark longer kind value) :
    '_' ∉ mark := by
  rcases scans.isMark with rfl | ⟨-, rfl | rfl⟩ <;> decide

theorem kind_isNumber (scans : Scans opening taken mark longer kind value) : kind.isNumber := by
  have isValue := scans.isValue
  unfold Scan.value? at isValue
  dsimp only at isValue
  split_ifs at isValue <;>
    obtain ⟨_, -, same⟩ := Option.map_eq_some_iff.mp isValue <;>
    exact (Prod.mk.inj same).1 ▸ rfl

/-- What a mark ends goes on in no other way. -/
theorem stopsAt (scans : Scans opening taken mark longer kind value) : longer.StopsAt mark := by
  rcases scans.isMark with rfl | ⟨noRadix, isMark⟩
  · simp [Scan.StopsAt]
  · have stops {d : Char} (isLetter : d = 'j' ∨ d = 'J') : longer.step d = .finish := by
      refine Scan.step_eq_finish (by rcases isLetter with rfl | rfl <;> decide) ?_
      intro longest extended
      cases extended with
      | underscore same => rcases isLetter with rfl | rfl <;> cases same
      | digit isIn =>
        rw [noRadix] at isIn
        rcases isLetter with rfl | rfl <;> exact absurd isIn (by decide)
      | mark _ _ isMark => rcases isLetter with rfl | rfl <;> cases isMark
      | other allowed =>
        obtain ⟨-, ⟨rfl, -⟩ | ⟨rfl | rfl, -⟩ | ⟨rfl | rfl, -⟩⟩ := Scan.allows_cases allowed <;>
          exact absurd isLetter (by decide)
    rintro d isHead
    rcases isMark with rfl | rfl <;> cases isHead
    · exact stops (.inl rfl)
    · exact stops (.inr rfl)

/-- The literal is a token of its own. -/
theorem legible (scans : Scans opening taken mark longer kind value) (span : Span) :
    Legible ⟨kind, String.ofList (longer.text.reverse ++ mark), value, span⟩ := by
  have isText : longer.text.reverse ++ mark = opening.reverse ++ (taken ++ mark) := by
    simp [scans.runs.text_eq, start]
  obtain ⟨c, rest, same⟩ : ∃ c rest, opening.reverse ++ (taken ++ mark) = c :: rest := by
    cases scans.opens <;> exact ⟨_, _, rfl⟩
  have finished : longer.finish mark =
      .ok ⟨kind, longer.text.length + mark.length, value, mark = []⟩ := by
    refine Scan.finish_eq_ok_iff.mpr ⟨scans.noUnderscore, mark, [], (mark.append_nil).symm, ?_,
      Scan.close_eq_ok_iff.mpr ⟨kind, value, scans.isValue, rfl⟩⟩
    exact scans.isMark.imp_left fun none => ⟨none, by simp [Scan.Apart]⟩
  have isFound := read_eq_ok_iff.mpr ⟨taken, mark, longer, rfl, scans.runs, scans.stopsAt, finished⟩
  rw [← scans.opens.lexeme_eq same] at isFound
  obtain ⟨plain, notBlank⟩ := scans.opens.plain same
  have isRest : (Cursor.ofString (String.ofList (longer.text.reverse ++ mark))).rest = c :: rest :=
    String.toList_ofList.trans (isText.trans same)
  obtain ⟨t, isNext, made⟩ := next_of_lexeme rfl isRest plain notBlank isFound
  have isNumber := scans.kind_isNumber
  refine ⟨?_, ?_, ?_⟩
  · rintro rfl
    cases isNumber
  · rintro rfl
    cases isNumber
  · rw [isNext]
    refine congrArg Except.ok (bare_eq_iff.mpr ⟨made.kind, ?_, made.value⟩)
    rw [made.text, ← same, ← isText, List.take_of_length_le (by simp)]

/-- Without its underscores the literal has the same kind and value. -/
theorem stripped (scans : Scans opening taken mark longer kind value) :
    ∃ taken behind, Scans opening taken mark (longer.stripped behind) kind value := by
  obtain ⟨behind, runs⟩ := scans.runs.stripped (start opening).afterDigit
  have same : (start opening).stripped (start opening).afterDigit = start opening :=
    congrArg (fun text => { start opening with text })
      (filter_ne_of_not_mem scans.opens.underscore_not_mem)
  rw [same] at runs
  exact ⟨_, behind, scans.opens, runs, longer.head?_stripped_ne behind, scans.isMark,
    (longer.value?_stripped behind _).trans scans.isValue⟩

/-- What stands before and behind an underscore belongs to the literal. -/
theorem around (scans : Scans opening taken mark longer kind value)
    (same : longer.text.reverse ++ mark = before ++ '_' :: after) :
    (∃ d ∈ before.getLast?, d ∈ longer.text ∧ isDigitIn longer.radix d) ∧
      ∃ d ∈ after.head?, d ∈ longer.text ∧ (isDigitIn longer.radix d ∨ d = '.') := by
  have noMark := scans.underscore_not_mem_mark
  rcases List.append_eq_append_iff.mp same with ⟨more, -, isMark⟩ | ⟨more, isText, isRest⟩
  · exact absurd (by simp [isMark]) noMark
  cases more with
  | nil =>
    obtain rfl : mark = '_' :: after := isRest.symm
    exact absurd List.mem_cons_self noMark
  | cons first more =>
    obtain ⟨rfl, rfl⟩ := List.cons.inj isRest
    have isReverse : longer.text = more.reverse ++ '_' :: before.reverse := by
      rw [← longer.text.reverse_reverse, isText]
      simp
    have joins := (scans.runs.invariant (fun _ _ _ spaced extended => extended.spaced spaced)
      scans.opens.spaced).joins
    rw [isReverse, List.isChain_append, List.isChain_cons] at joins
    obtain ⟨-, ⟨behindDigit, -⟩, beforeDigit⟩ := joins
    -- the underscore is neither the first character nor the last one
    obtain ⟨first, isFirst⟩ : ∃ first, before.getLast? = some first := by
      refine Option.ne_none_iff_exists'.mp fun none => ?_
      obtain rfl : before = [] := List.getLast?_eq_none_iff.mp none
      have isLast : (taken.reverse ++ opening).getLast? = some '_' := by
        rw [← show longer.text = taken.reverse ++ opening from scans.runs.text_eq, isReverse]
        simp
      have some : opening ≠ [] := by
        rintro rfl
        cases scans.opens
      rw [List.getLast?_append_of_ne_nil _ some] at isLast
      exact scans.opens.underscore_not_mem (List.mem_of_getLast? isLast)
    obtain ⟨second, isSecond⟩ : ∃ second, more.head? = some second := by
      refine Option.ne_none_iff_exists'.mp fun none => ?_
      obtain rfl : more = [] := List.head?_eq_none_iff.mp none
      exact scans.noUnderscore (by rw [isReverse]; rfl)
    constructor
    · refine ⟨first, isFirst, ?_, (behindDigit first ?_).1 rfl⟩
      · simp [isReverse, List.mem_of_getLast? isFirst]
      · rw [List.head?_reverse]
        exact isFirst
    · refine ⟨second, ?_, ?_, ?_⟩
      · simp [isSecond]
      · simp [isReverse, List.mem_of_head? isSecond]
      · refine ((beforeDigit second ?_ '_' rfl).2 rfl).imp_right (·.1)
        rw [List.getLast?_reverse]
        exact isSecond

/-- Only integers have another radix than ten, which a letter behind a zero marks. -/
theorem of_radix {radix : Nat} (scans : Scans opening taken mark longer kind value)
    (isRadix : longer.radix = some radix) :
    kind = .integer ∧ ∃ letter others, longer.text.reverse = '0' :: letter :: others ∧
      radix? letter = some radix := by
  have isReverse : longer.text.reverse = opening.reverse ++ taken := by
    simp [scans.runs.text_eq, start]
  have runs := scans.runs
  cases scans.opens with
  | second =>
    rw [runs.radix_eq (by simp [start])] at isRadix
    cases isRadix
  | digit =>
    obtain ⟨rfl, letter, isHead, isMark⟩ := runs.marked isRadix
    obtain ⟨others, rfl⟩ := List.head?_eq_some_iff.mp isHead
    refine ⟨?_, letter, others, isReverse, isMark⟩
    obtain rfl : mark = [] := scans.isMark.resolve_right (by simp [isRadix])
    have whole := scans.runs.invariant (fun _ _ _ whole extended => extended.whole whole)
      scans.opens.whole
    obtain ⟨noExponent, noPoint⟩ := whole.noFraction (.inl (by simp [isRadix]))
    have isValue := scans.isValue
    unfold Scan.value? at isValue
    have noContains : longer.text.contains '.' = false := by simpa using noPoint
    simp only [ne_eq, not_true_eq_false, decide_false, Bool.false_eq_true, if_false, noExponent,
      noContains, Bool.or_self] at isValue
    obtain ⟨_, -, same⟩ := Option.map_eq_some_iff.mp isValue
    exact (Prod.mk.inj same).1.symm

end Scans

end Numeral

/-! ### Tokens -/

open Numeral (IsDigit Scans radix?)

/-- The radix of the digits of a number: that of the letter behind a leading zero, and eight if
there is none, for integers, and ten for all others. -/
def literalRadix (t : Token) : Nat :=
  match t.kind, t.text.toList with
  | .integer, '0' :: second :: _ => (radix? second).getD 8
  | _, _ => 10

theorem Legible.exists_scans {t : Token} (legible : t.Legible) (isNumber : t.kind.isNumber) :
    ∃ opening taken mark longer, Scans opening taken mark longer t.kind t.value ∧
      t.text.toList = longer.text.reverse ++ mark := by
  obtain ⟨c, rest, found, isText, -, -, isFound, length, sameKind, sameValue⟩ :=
    legible.exists_lexeme
  obtain ⟨opening, text, opens, same, done⟩ := opens_of_lexeme isFound (sameKind ▸ isNumber)
  obtain ⟨taken, behind, longer, rfl, runs, -, finished⟩ := Numeral.read_eq_ok_iff.mp done
  obtain ⟨noUnderscore, mark, tail, rfl, marked, closed⟩ :=
    Numeral.Scan.finish_eq_ok_iff.mp finished
  obtain ⟨kind, value, isValue, rfl⟩ := Numeral.Scan.close_eq_ok_iff.mp closed
  obtain ⟨rfl, rfl⟩ : kind = t.kind ∧ value = t.value := ⟨sameKind, sameValue⟩
  have whole : longer.text.reverse ++ mark ++ tail = c :: rest := by
    rw [← same]
    simp [runs.text_eq, Numeral.start]
  -- the token takes all of its text
  obtain rfl : tail = [] := by
    have lengths := congrArg List.length whole
    simp only [List.length_append, List.length_reverse, List.length_cons] at lengths length
    exact List.length_eq_zero_iff.mp (by omega)
  refine ⟨opening, taken, mark, longer, ?_, ?_⟩
  · exact ⟨opens, runs, noUnderscore, marked.imp_left (·.1), isValue⟩
  · rw [isText, ← whole, List.append_nil]

theorem isDigit_literalRadix {t : Token} {longer : Numeral.Scan} {d : Char}
    (scans : Scans opening taken mark longer t.kind t.value)
    (isText : t.text.toList = longer.text.reverse ++ mark) (among : d ∈ longer.text)
    (isIn : Numeral.isDigitIn longer.radix d) : IsDigit (literalRadix t) d := by
  cases isRadix : longer.radix with
  | some radix =>
    obtain ⟨isInteger, letter, others, isReverse, isMark⟩ := scans.of_radix isRadix
    have isLiteral : literalRadix t = radix := by
      simp [literalRadix, isInteger, isText, isReverse, isMark]
    rw [isRadix, ← isMark, Numeral.isDigitIn_iff (Numeral.radix?_mem_radixes letter),
      isMark] at isIn
    rwa [isLiteral]
  | none =>
    have isDecimal := isIn
    rw [isRadix, Numeral.isDigitIn_iff Numeral.none_mem_radixes] at isDecimal
    unfold literalRadix
    split
    case h_2 => exact isDecimal
    case h_1 second others isInteger isWhole =>
      have isValue := scans.isValue
      rw [isInteger] at isValue
      obtain ⟨noMark, -, -, number, isNumber, -⟩ := Numeral.Scan.value?_eq_integer_iff.mp isValue
      obtain rfl : mark = [] := by simpa using noMark
      rw [isText, List.append_nil] at isWhole
      rw [isRadix, isWhole] at isNumber
      have octal := Numeral.octal_of_integer? isNumber
      have noLetter : radix? second = none := by
        rcases octal second (by simp) with rfl | isOctal
        · rfl
        · exact Numeral.radix?_eq_none_of_isDigit (Bool.and_eq_true_iff.mp isOctal).1
      rw [noLetter]
      rw [← List.mem_reverse, isWhole] at among
      rcases List.mem_cons.mp among with rfl | among
      · exact ⟨0, by decide, by decide⟩
      rcases octal d among with rfl | isOctal
      · exact absurd isIn (by rw [isRadix]; decide)
      · exact (Numeral.isDigitIn_iff (by decide)).mp isOctal

/-- Every underscore of a number stands between two of its digits. -/
def SeparatesDigits (t : Token) : Prop :=
  ∀ before after, t.text.toList = before ++ '_' :: after →
    (∃ d ∈ before.getLast?, IsDigit (literalRadix t) d) ∧
      ∃ d ∈ after.head?, IsDigit (literalRadix t) d

theorem not_isDigit_point (radix : Nat) : ¬IsDigit radix '.' := by
  rintro ⟨value, -, listed⟩
  simp [Text.hexDigits] at listed

/-- An underscore stands behind a digit, and in front of a digit or of the point. -/
theorem Legible.around_underscore {t : Token} (legible : t.Legible) (isNumber : t.kind.isNumber)
    {before after : List Char} (same : t.text.toList = before ++ '_' :: after) :
    (∃ d ∈ before.getLast?, IsDigit (literalRadix t) d) ∧
      ∃ d ∈ after.head?, IsDigit (literalRadix t) d ∨ d = '.' ∧ t.kind ≠ .integer := by
  obtain ⟨opening, taken, mark, longer, scans, isText⟩ := legible.exists_scans isNumber
  obtain ⟨⟨first, isFirst, firstAmong, firstIsIn⟩, ⟨second, isSecond, secondAmong, secondIs⟩⟩ :=
    scans.around (isText.symm.trans same)
  refine ⟨⟨first, isFirst, isDigit_literalRadix scans isText firstAmong firstIsIn⟩,
    second, isSecond, ?_⟩
  rcases secondIs with secondIsIn | rfl
  · exact .inl (isDigit_literalRadix scans isText secondAmong secondIsIn)
  · -- an integer has no point
    refine .inr ⟨rfl, fun isInteger => ?_⟩
    have isValue := scans.isValue
    rw [isInteger] at isValue
    exact (Numeral.Scan.value?_eq_integer_iff.mp isValue).2.2.1 secondAmong

theorem Legible.separatesDigits_iff {t : Token} (legible : t.Legible)
    (isNumber : t.kind.isNumber) : SeparatesDigits t ↔ ¬['_', '.'] <:+: t.text.toList := by
  constructor
  · rintro separates ⟨before, after, same⟩
    obtain ⟨-, d, isHead, isDigit⟩ := separates before ('.' :: after) (by simp [← same])
    cases isHead
    exact not_isDigit_point _ isDigit
  · intro noPoint before after same
    obtain ⟨isBehind, d, isHead, isDigit | ⟨rfl, -⟩⟩ := legible.around_underscore isNumber same
    · exact ⟨isBehind, d, isHead, isDigit⟩
    · obtain ⟨others, rfl⟩ := List.head?_eq_some_iff.mp isHead
      exact absurd ⟨before, others, by simp [same]⟩ noPoint

/-- The number is read without its underscores, too. -/
theorem Legible.without_underscores {t : Token} (legible : t.Legible)
    (isNumber : t.kind.isNumber) :
    Legible { t with text := String.ofList (t.text.toList.filter (· ≠ '_')) } := by
  obtain ⟨opening, taken, mark, longer, scans, isText⟩ := legible.exists_scans isNumber
  obtain ⟨taken, behind, strippedScans⟩ := scans.stripped
  have same : (longer.stripped behind).text.reverse ++ mark = t.text.toList.filter (· ≠ '_') := by
    rw [isText, List.filter_append, filter_ne_of_not_mem scans.underscore_not_mem_mark,
      List.filter_reverse]
    rfl
  exact same ▸ strippedScans.legible t.span

/-- Every underscore of a number stands behind a digit, and in front of a digit or of the point. So
they separate digits exactly if none stands in front of the point. The number is read without its
underscores, too, as the same kind and value. -/
theorem underscores_apart {here behind : Cursor} {t : Token} (isNext : next here = (.ok t, behind))
    (isNumber : t.kind.isNumber) :
    (∀ before after, t.text.toList = before ++ '_' :: after →
        (∃ d ∈ before.getLast?, IsDigit (literalRadix t) d) ∧
          ∃ d ∈ after.head?, IsDigit (literalRadix t) d ∨ d = '.' ∧ t.kind ≠ .integer) ∧
      (SeparatesDigits t ↔ ¬['_', '.'] <:+: t.text.toList) ∧
      Legible { t with text := String.ofList (t.text.toList.filter (· ≠ '_')) } := by
  have legible : t.Legible := by
    refine legible_of_next isNext ?_ ?_ <;> intro isKind <;> simp [isKind, Kind.isNumber] at isNumber
  exact ⟨fun before after same => legible.around_underscore isNumber same,
    legible.separatesDigits_iff isNumber, legible.without_underscores isNumber⟩

/-- Hexadecimal digits with an underscore between them. -/
theorem underscores_apart_hexadecimal :
    SeparatesDigits ⟨.integer, "0x1_f", .int 31, { start := ⟨1, 1⟩, stop := ⟨1, 5⟩ }⟩ ∧
      Legible ⟨.integer, "0x1f", .int 31, { start := ⟨1, 1⟩, stop := ⟨1, 5⟩ }⟩ := by
  have isNext : next (Cursor.ofString "0x1_f;") =
      (.ok ⟨.integer, "0x1_f", .int 31, { start := ⟨1, 1⟩, stop := ⟨1, 5⟩ }⟩,
        { rest := [';'], location := ⟨1, 6⟩ }) := by
    decide +kernel
  obtain ⟨-, separatesIff, legible⟩ := underscores_apart isNext rfl
  exact ⟨separatesIff.mpr (by decide +kernel), legible⟩

/-- A number can have an underscore in front of its point. -/
theorem underscore_before_point : ¬∀ (here behind : Cursor) (t : Token),
    next here = (.ok t, behind) → t.kind.isNumber → SeparatesDigits t := by
  intro law
  have shown : (next (Cursor.ofString "1_.5")).1.map (fun t => (t.kind, t.text)) =
      .ok (.float, "1_.5") := by
    decide +kernel
  rcases isNext : next (Cursor.ofString "1_.5") with ⟨e | t, behind⟩
  · rw [isNext] at shown
    cases shown
  · rw [isNext] at shown
    obtain ⟨isKind, isText⟩ := Prod.mk.inj (Except.ok.inj shown)
    have whole : t.text.toList = ['1'] ++ '_' :: ['.', '5'] := isText ▸ rfl
    obtain ⟨-, d, isHead, isDigit⟩ := law _ _ t isNext (isKind ▸ rfl) _ _ whole
    cases isHead
    exact not_isDigit_point _ isDigit

end LazyConfig.Token
