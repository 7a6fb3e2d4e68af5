import LazyConfig.Proofs.Calendar.Written

/-!
# Styles of writing times

A time can be written in several styles, which differ in the separator and in how many digits of a
fraction are shown. A style shows a time in full if the digits that it leaves out are zeros. The text
of a time in such a style has the written form, and its fields make the time again. The standard text
of a time is its text in one of the styles.
-/

namespace LazyConfig.Calendar

open Text (decimalValue? isDecimal isDigit ofDigits)
open Written (Digits Fraction)

/-! ### Numbers filled up with zeros -/

theorem decimalValue?_of_isDigit {c : Char} (digit : isDigit c) :
    decimalValue? c = some (c.toNat - '0'.toNat) := by
  simp only [isDigit, Bool.and_eq_true, decide_eq_true_eq, Char.le_def] at digit
  have first : (Text.decimalZeros.find? fun first => first ≤ c.toNat && c.toNat ≤ first + 9) =
      some 0x30 := by
    refine List.find?_cons_of_pos ?_
    simp only [Bool.and_eq_true, decide_eq_true_eq]
    exact ⟨digit.1, digit.2⟩
  rw [decimalValue?, first]
  rfl

theorem isDigit_of_mem_toDigits {n : Nat} : ∀ c ∈ Nat.toDigits 10 n, isDigit c := by
  intro c among
  have digit := Nat.isDigit_of_mem_toDigits (by decide) (by decide) among
  simpa [isDigit, Char.isDigit, Char.le_def] using digit

theorem ofDigits_filterMap_eq {digits : List Char} (ascii : ∀ c ∈ digits, isDigit c) :
    ofDigits 10 (digits.filterMap decimalValue?) = Nat.ofDigitChars 10 digits 0 := by
  unfold ofDigits Nat.ofDigitChars
  generalize 0 = total
  induction digits generalizing total with
  | nil => rfl
  | cons c digits ih =>
    obtain ⟨digit, others⟩ := List.forall_mem_cons.mp ascii
    rw [List.filterMap_cons_some (decimalValue?_of_isDigit digit), List.foldl_cons,
      List.foldl_cons, ih others, Nat.mul_comm]

theorem ofDigits_replicate_zero (count : Nat) : ofDigits 10 (List.replicate count 0) = 0 := by
  rw [Text.ofDigits_eq_ofDigits_reverse, List.reverse_replicate, Nat.ofDigits_replicate_zero]

theorem toList_padded (width n : Nat) :
    (padded width n).toList =
      List.replicate (width - (Nat.toDigits 10 n).length) '0' ++ Nat.toDigits 10 n := by
  simp [padded, Nat.toString_eq_repr, Nat.repr_eq_ofList_toDigits]

theorem isDecimal_padded (width n : Nat) : ∀ c ∈ (padded width n).toList, isDecimal c := by
  intro c among
  rw [toList_padded, List.mem_append, List.mem_replicate] at among
  rcases among with ⟨-, rfl⟩ | among
  · exact Text.isDecimal_of_isDigit (by decide)
  · exact Text.isDecimal_of_isDigit (isDigit_of_mem_toDigits c among)

theorem ofDigits_padded (width n : Nat) :
    ofDigits 10 ((padded width n).toList.filterMap decimalValue?) = n := by
  have zero : decimalValue? '0' = some 0 := decimalValue?_of_isDigit (by decide)
  rw [toList_padded, List.filterMap_append, List.filterMap_replicate, zero,
    Text.ofDigits_append, ofDigits_filterMap_eq isDigit_of_mem_toDigits,
    Nat.ofDigitChars_ten_toDigits]
  dsimp only
  rw [ofDigits_replicate_zero, Nat.zero_mul, Nat.zero_add]

theorem length_padded {width n : Nat} (positive : 0 < width) (small : n < 10 ^ width) :
    (padded width n).toList.length = width := by
  have fits : (Nat.toDigits 10 n).length ≤ width :=
    (Nat.length_toDigits_le_iff (by decide) positive).mpr small
  rw [toList_padded, List.length_append, List.length_replicate]
  omega

/-- A number that is small enough fills the width exactly. -/
theorem exists_digits {width n : Nat} (positive : 0 < width) (small : n < 10 ^ width) :
    ∃ d : Digits width, d.text = (padded width n).toList ∧ d.value = n := by
  have length := length_padded positive small
  have decimal := isDecimal_padded width n
  have value := ofDigits_padded width n
  generalize (padded width n).toList = text at length decimal value ⊢
  exact ⟨⟨text, length, decimal⟩, rfl, value⟩

/-! ### Styles -/

/-- How a time is written: behind a blank or a `T`, with so many digits of its fraction, and with the
seconds of its offset, if they are written at all, down to so many digits of their fraction. -/
structure Style where
  blank : Bool
  places : Nat
  offsetPlaces : Option Nat

namespace Style

/-- So many digits of a fraction; no digits and no point for none. -/
def fractionText (places microsecond : Nat) : String :=
  if places = 0 then "" else "." ++ padded places (microsecond / 10 ^ (6 - places))

def offsetText (places : Option Nat) (offset : Int) : String :=
  let length := offset.natAbs
  let seconds := length / 1000000
  (if offset < 0 then "-" else "+") ++ padded 2 (seconds / 3600) ++ ":" ++
    padded 2 (seconds / 60 % 60) ++
    (places.elim "" fun places =>
      ":" ++ padded 2 (seconds % 60) ++ fractionText places (length % 1000000))

/-- The text of a time in a style. -/
def text (style : Style) (t : DateTime) : String :=
  t.date.text ++ (if style.blank then " " else "T") ++ padded 2 t.hour ++ ":" ++
    padded 2 t.minute ++ ":" ++ padded 2 t.second ++ fractionText style.places t.microsecond ++
    (t.offset.map (offsetText style.offsetPlaces)).getD ""

/-- So many digits show the fraction in full. -/
def ShowsFraction (places microsecond : Nat) : Prop :=
  places ≤ 6 ∧ 10 ^ (6 - places) ∣ microsecond

/-- The style leaves out nothing of the time but zeros. -/
structure Shows (style : Style) (t : DateTime) : Prop where
  fraction : ShowsFraction style.places t.microsecond
  offset : ∀ offset ∈ t.offset, match style.offsetPlaces with
    | none => 60 * 1000000 ∣ offset.natAbs
    | some places => ShowsFraction places (offset.natAbs % 1000000)

/-! ### Texts in a style -/

theorem exists_fraction {places microsecond : Nat} (shows_ : ShowsFraction places microsecond)
    (small : microsecond < 1000000) :
    ∃ f : Option Fraction, f.elim [] Fraction.text = (fractionText places microsecond).toList ∧
      f.elim 0 Fraction.microseconds = microsecond := by
  obtain ⟨few, exact_⟩ := shows_
  unfold fractionText
  by_cases none : places = 0
  · subst none
    exact ⟨.none, by simp, (Nat.eq_zero_of_dvd_of_lt exact_ small).symm⟩
  · have positive := Nat.pos_of_ne_zero none
    have total := Written.pow_places few
    obtain ⟨shown, isShown, value⟩ := exists_digits positive
      (Nat.div_lt_of_lt_mul (by rw [Nat.mul_comm, total]; exact small) :
        microsecond / 10 ^ (6 - places) < 10 ^ places)
    refine ⟨some ⟨places, shown, positive, few⟩, ?_, ?_⟩
    · simp [none, Fraction.text, isShown]
    · change shown.value * 10 ^ (6 - places) = microsecond
      rw [value, Nat.div_mul_cancel exact_]

/-- The digits of a number below a hundred. -/
theorem exists_pair {n : Nat} (small : n < 100) :
    ∃ d : Digits 2, d.text = (padded 2 n).toList ∧ d.value = n :=
  exists_digits (by decide) small

theorem exists_offset {places : Option Nat} {offset : Int}
    (shows_ : match places with
      | none => 60 * 1000000 ∣ offset.natAbs
      | some places => ShowsFraction places (offset.natAbs % 1000000))
    (small : offset.natAbs < microsecondsPerDay) :
    ∃ w : Written.Offset, w.text = (offsetText places offset).toList ∧
      w.fields.microseconds = offset := by
  unfold microsecondsPerDay at small
  obtain ⟨hour, isHour, hourValue⟩ :=
    exists_pair (n := offset.natAbs / 1000000 / 3600) (by omega)
  obtain ⟨minute, isMinute, minuteValue⟩ :=
    exists_pair (n := offset.natAbs / 1000000 / 60 % 60) (by omega)
  obtain ⟨second, isSecond, secondValue⟩ :=
    exists_pair (n := offset.natAbs / 1000000 % 60) (by omega)
  -- the sign and the length make the offset again
  have signed {length : Nat} (same : length = offset.natAbs) :
      (if decide (offset < 0) then -(length : Int) else length) = offset := by
    subst same
    by_cases negative : offset < 0
    · rw [if_pos (decide_eq_true negative)]
      omega
    · rw [if_neg (by simpa using negative)]
      omega
  cases places with
  | none =>
    refine ⟨⟨decide (offset < 0), hour, minute, none⟩, ?_, signed ?_⟩
    · by_cases negative : offset < 0 <;>
        simp [Written.Offset.text, offsetText, negative, isHour, isMinute]
    · simp only [Written.Offset.fields, hourValue, minuteValue, Option.elim_none]
      omega
  | some places =>
    obtain ⟨f, isFraction, fractionValue⟩ :=
      exists_fraction shows_ (Nat.mod_lt _ (by decide))
    refine ⟨⟨decide (offset < 0), hour, minute, some (second, f)⟩, ?_, signed ?_⟩
    · by_cases negative : offset < 0 <;>
        simp [Written.Offset.text, Written.secondText, offsetText, negative, isHour, isMinute,
          isSecond, isFraction]
    · simp only [Written.Offset.fields, hourValue, minuteValue, secondValue, fractionValue,
        Option.elim_some]
      omega

end Style

/-- The digits of a date. -/
theorem exists_date {d : Date} (valid : d.Valid) :
    ∃ (year : Digits 4) (month day : Digits 2),
      d.text.toList = year.text ++ '-' :: (month.text ++ '-' :: day.text) ∧
        ⟨year.value, month.value, day.value⟩ = d := by
  obtain ⟨-, lastYear, -, lastMonth, -, lastDay⟩ := valid
  have month_le : daysInMonth d.year d.month ≤ 31 := by
    unfold daysInMonth
    split
    case h_1 => split <;> omega
    all_goals omega
  obtain ⟨year, isYear, yearValue⟩ :=
    exists_digits (by decide : 0 < 4) (by omega : d.year < 10 ^ 4)
  obtain ⟨month, isMonth, monthValue⟩ := Style.exists_pair (n := d.month) (by omega)
  obtain ⟨day, isDay, dayValue⟩ := Style.exists_pair (n := d.day) (by omega)
  refine ⟨year, month, day, ?_, ?_⟩
  · simp [Date.text, isYear, isMonth, isDay]
  · rw [yearValue, monthValue, dayValue]

/-- The text of a date has the written form. -/
theorem exists_written_date {d : Date} (valid : d.Valid) :
    ∃ w : Written, w.text = d.text.toList ∧ w.fields = ⟨d, none⟩ := by
  obtain ⟨year, month, day, isText, isDate⟩ := exists_date valid
  refine ⟨⟨year, month, day, none⟩, ?_, ?_⟩
  · rw [isText]
    simp [Written.text]
  · rw [Written.fields, Written.date, isDate]
    rfl

/-- The fields of a time are in their ranges if they make one. -/
theorem moment?_of_valid {d : Date} {fields : TimeFields} {t : DateTime} (valid : t.Valid)
    (same : ⟨d, fields.hour, fields.minute, fields.second, fields.microsecond,
      fields.offset.map OffsetFields.microseconds⟩ = t) :
    Fields.moment? ⟨d, some fields⟩ = some (.dateTime t) := by
  subst same
  exact if_pos valid

/-- The text of a time in a style that shows it in full has the written form. -/
theorem exists_written {style : Style} {t : DateTime} (valid : t.Valid) (shows_ : style.Shows t) :
    ∃ w : Written, w.text = (style.text t).toList ∧ w.fields.moment? = some (.dateTime t) := by
  obtain ⟨validDate, hours, minutes, seconds, microseconds, withinDay⟩ := id valid
  obtain ⟨year, month, day, isText, isDate⟩ := exists_date validDate
  obtain ⟨hour, isHour, hourValue⟩ := Style.exists_pair (n := t.hour) (by omega)
  obtain ⟨minute, isMinute, minuteValue⟩ := Style.exists_pair (n := t.minute) (by omega)
  obtain ⟨second, isSecond, secondValue⟩ := Style.exists_pair (n := t.second) (by omega)
  obtain ⟨f, isFraction, fractionValue⟩ := Style.exists_fraction shows_.fraction microseconds
  have offset : ∃ w : Option Written.Offset,
      w.elim [] Written.Offset.text =
        ((t.offset.map (Style.offsetText style.offsetPlaces)).getD "").toList ∧
      (w.map Written.Offset.fields).map OffsetFields.microseconds = t.offset := by
    cases isOffset : t.offset with
    | none => exact ⟨none, rfl, rfl⟩
    | some offset =>
      obtain ⟨w, isText, value⟩ := Style.exists_offset (shows_.offset offset isOffset)
        (withinDay offset isOffset)
      exact ⟨some w, isText, congrArg some value⟩
  obtain ⟨offset, isOffset, offsetValue⟩ := offset
  refine ⟨⟨year, month, day, some ⟨style.blank, hour, minute, second, f, offset⟩⟩, ?_,
    moment?_of_valid valid ?_⟩
  · simp only [Written.text, Written.Time.text, Written.Time.separator, Written.secondText,
      Style.text, String.toList_append, isText]
    cases style.blank <;> simp [isHour, isMinute, isSecond, isFraction, isOffset]
  · simp only [Written.date, Written.Time.fields, isDate, hourValue, minuteValue, secondValue,
      fractionValue, offsetValue]

/-! ### Standard texts -/

namespace Style

/-- The digits that a fraction needs in a standard text: none or all six. -/
def standardPlaces (microsecond : Nat) : Nat := if microsecond = 0 then 0 else 6

/-- The style of the standard text of a time: the seconds of an offset are written if they or their
fraction are not zero. -/
def standard (blank : Bool) (t : DateTime) : Style where
  blank := blank
  places := standardPlaces t.microsecond
  offsetPlaces := t.offset.bind fun offset =>
    if 60 * 1000000 ∣ offset.natAbs then none
    else some (standardPlaces (offset.natAbs % 1000000))

theorem showsFraction_standardPlaces (microsecond : Nat) :
    ShowsFraction (standardPlaces microsecond) microsecond := by
  unfold standardPlaces
  split
  case isTrue none =>
    subst none
    exact ⟨by decide, dvd_zero _⟩
  case isFalse => exact ⟨Nat.le_refl 6, one_dvd _⟩

theorem shows_standard (blank : Bool) (t : DateTime) : (standard blank t).Shows t := by
  refine ⟨showsFraction_standardPlaces _, fun offset isOffset => ?_⟩
  rw [Option.mem_def] at isOffset
  by_cases whole : 60 * 1000000 ∣ offset.natAbs
  · simpa only [standard, isOffset, Option.bind_some, if_pos whole] using whole
  · simpa only [standard, isOffset, Option.bind_some, if_neg whole] using
      showsFraction_standardPlaces _

theorem fractionText_standardPlaces (microsecond : Nat) :
    fractionText (standardPlaces microsecond) microsecond = Calendar.fractionText microsecond := by
  unfold fractionText standardPlaces Calendar.fractionText
  by_cases none : microsecond = 0
  · simp [none]
  · simp [none]

theorem offsetText_standard (offset : Int) :
    offsetText (if 60 * 1000000 ∣ offset.natAbs then none
      else some (standardPlaces (offset.natAbs % 1000000))) offset =
      Calendar.offsetText offset := by
  have whole : 60 * 1000000 ∣ offset.natAbs ↔
      offset.natAbs / 1000000 % 60 = 0 ∧ offset.natAbs % 1000000 = 0 := by
    omega
  unfold offsetText Calendar.offsetText
  simp only [whole]
  by_cases zero : offset.natAbs / 1000000 % 60 = 0 ∧ offset.natAbs % 1000000 = 0
  · rw [if_pos zero, if_pos zero, Option.elim_none]
  · rw [if_neg zero, if_neg zero, Option.elim_some, fractionText_standardPlaces]

/-- The standard text is the text in the standard style. -/
theorem text_standard (blank : Bool) (t : DateTime) :
    (standard blank t).text t = t.text (if blank then " " else "T") := by
  unfold text DateTime.text
  rw [standard]
  dsimp only
  rw [fractionText_standardPlaces]
  cases t.offset with
  | none => rfl
  | some offset => rw [Option.bind_some, Option.map_some, Option.map_some, offsetText_standard]

end Style

end LazyConfig.Calendar
