import LazyConfig.Calendar.Iso
import LazyConfig.Proofs.Text.CharClass
import LazyConfig.Proofs.Text.Digit

/-!
# Dates in writing

The written form of dates, field by field: the digits of each field, in any script, and which of the
parts that can be left out are there. What is read as a date are exactly the texts in this form, and
the fields are the numbers that the digits write.
-/

namespace LazyConfig.Calendar

open Text (decimalValue? isDecimal ofDigits)

/-! ### The form -/

namespace Written

/-- So many decimal digits. -/
structure Digits (width : Nat) where
  text : List Char
  length_eq : text.length = width
  decimal : ∀ c ∈ text, isDecimal c

/-- The digits behind the point of a second. -/
structure Fraction where
  places : Nat
  digits : Digits places
  positive : 0 < places
  le_six : places ≤ 6

structure Offset where
  negative : Bool
  hour : Digits 2
  minute : Digits 2
  second : Option (Digits 2 × Option Fraction)

/-- A time of day, behind a blank or a `T`. -/
structure Time where
  blank : Bool
  hour : Digits 2
  minute : Digits 2
  second : Digits 2
  fraction : Option Fraction
  offset : Option Offset

end Written

/-- A date in writing, with or without a time of day. -/
structure Written where
  year : Written.Digits 4
  month : Written.Digits 2
  day : Written.Digits 2
  time : Option Written.Time

namespace Written

def Digits.value {width : Nat} (d : Digits width) : Nat :=
  ofDigits 10 (d.text.filterMap decimalValue?)

def Fraction.text (f : Fraction) : List Char := '.' :: f.digits.text

def Fraction.microseconds (f : Fraction) : Nat := f.digits.value * 10 ^ (6 - f.places)

def secondText (second : Digits 2 × Option Fraction) : List Char :=
  second.1.text ++ second.2.elim [] Fraction.text

def Offset.text (o : Offset) : List Char :=
  (if o.negative then '-' else '+') :: (o.hour.text ++ ':' :: (o.minute.text ++
    o.second.elim [] fun second => ':' :: secondText second))

def Offset.fields (o : Offset) : OffsetFields where
  negative := o.negative
  hour := o.hour.value
  minute := o.minute.value
  second := o.second.elim 0 (·.1.value)
  microsecond := o.second.elim 0 (·.2.elim 0 Fraction.microseconds)

/-- The text behind the separator. -/
def Time.text (t : Time) : List Char :=
  t.hour.text ++ ':' :: (t.minute.text ++ ':' :: (secondText (t.second, t.fraction) ++
    t.offset.elim [] Offset.text))

def Time.separator (t : Time) : Char := if t.blank then ' ' else 'T'

def Time.fields (t : Time) : TimeFields where
  hour := t.hour.value
  minute := t.minute.value
  second := t.second.value
  microsecond := t.fraction.elim 0 Fraction.microseconds
  offset := t.offset.map Offset.fields

end Written

open Written

namespace Written

def text (w : Written) : List Char :=
  w.year.text ++ '-' :: (w.month.text ++ '-' :: (w.day.text ++
    w.time.elim [] fun time => time.separator :: time.text))

def date (w : Written) : Date := ⟨w.year.value, w.month.value, w.day.value⟩

def fields (w : Written) : Fields := ⟨w.date, w.time.map Time.fields⟩

end Written

/-! ### Reading the form -/

namespace Reading

variable {text rest : List Char}

theorem bind_eq_some_iff {α β : Type} {first : Reader α} {next : α → Reader β} {b : β} :
    (first >>= next) text = some (b, rest) ↔
      ∃ a middle, first text = some (a, middle) ∧ next a middle = some (b, rest) := by
  simp [bind, StateT.bind, Option.bind_eq_some_iff]

theorem pure_eq_some_iff {α : Type} {a b : α} :
    (pure a : Reader α) text = some (b, rest) ↔ a = b ∧ text = rest := by
  change some (a, text) = some (b, rest) ↔ _
  simp

theorem mark_eq_some_iff {c : Char} {u : Unit} :
    mark c text = some (u, rest) ↔ text = c :: rest := by
  unfold mark
  cases text with
  | nil => simp
  | cons first tail =>
    by_cases same : first = c <;> simp [same]

theorem mark_eq_none_iff {c : Char} : mark c text = none ↔ text.head? ≠ some c := by
  unfold mark
  cases text with
  | nil => simp
  | cons first tail =>
    by_cases same : first = c <;> simp [same]

theorem atEnd_bind {β : Type} {next : Bool → Reader β} :
    (atEnd >>= next) text = next text.isEmpty text := rfl

theorem digits_eq_some_iff {width n : Nat} :
    digits width text = some (n, rest) ↔
      ∃ d : Digits width, text = d.text ++ rest ∧ d.value = n := by
  unfold digits
  dsimp only
  constructor
  · intro read
    split at read
    case isFalse => cases read
    case isTrue enough =>
      cases read
      -- so many characters are there, and all of them are digits
      have length : (text.take width).length = width := by
        have few := List.length_filterMap_le decimalValue? (text.take width)
        have atMost := List.length_take_le width text
        omega
      have decimal : ∀ c ∈ text.take width, isDecimal c :=
        List.filterMap_length_eq_length.mp (enough.trans length.symm)
      exact ⟨⟨text.take width, length, decimal⟩, (List.take_append_drop width text).symm, rfl⟩
  · rintro ⟨d, rfl, rfl⟩
    have taken : (d.text ++ rest).take width = d.text := List.take_left' d.length_eq
    have all : (d.text.filterMap decimalValue?).length = width := by
      rw [List.filterMap_length_eq_length.mpr d.decimal, d.length_eq]
    rw [taken, if_pos all, List.drop_left' d.length_eq]
    rfl

/-- What follows does not go on with a fraction. -/
def EndsFraction (f : Option Fraction) (rest : List Char) : Prop :=
  match f with
  | none => rest.head? ≠ some '.'
  | some f => f.places < 6 → ∀ c ∈ rest.head?, isDecimal c = false

/-- The digits at the head of a text, six at most. -/
def leading (text : List Char) : List Char := (text.take 6).takeWhile isDecimal

theorem values_leading (text : List Char) :
    (((text.take 6).map decimalValue?).takeWhile Option.isSome).reduceOption =
      (leading text).filterMap decimalValue? := by
  have same : Option.isSome ∘ decimalValue? = isDecimal := rfl
  change (((text.take 6).map decimalValue?).takeWhile Option.isSome).filterMap id = _
  rw [List.takeWhile_map, List.filterMap_map, same]
  rfl

theorem decimal_of_mem_leading : ∀ c ∈ leading text, isDecimal c :=
  List.all_eq_true.mp List.all_takeWhile

theorem length_leading_le (text : List Char) : (leading text).length ≤ 6 :=
  (List.takeWhile_sublist _).length_le.trans (List.length_take_le _ _)

theorem leading_append_drop (text : List Char) :
    leading text ++ text.drop (leading text).length = text :=
  List.prefix_iff_eq_append.mp ((List.takeWhile_prefix _).trans (List.take_prefix _ _))

theorem leading_append {digits : List Char} (decimal : ∀ c ∈ digits, isDecimal c)
    (few : digits.length ≤ 6)
    (ends : digits.length < 6 → ∀ c ∈ rest.head?, isDecimal c = false) :
    leading (digits ++ rest) = digits := by
  rw [leading, List.take_append, List.take_of_length_le few,
    List.takeWhile_append_of_pos decimal, List.append_right_eq_self]
  cases more : 6 - digits.length with
  | zero => rfl
  | succ more =>
    cases rest with
    | nil => rfl
    | cons c rest =>
      have stops := ends (by omega) c rfl
      rw [List.take_succ_cons, List.takeWhile_cons_of_neg (by simp [stops])]

/-- No digit stands behind fewer than six of them. -/
theorem ends_leading (few : (leading text).length < 6) :
    ∀ c ∈ (text.drop (leading text).length).head?, isDecimal c = false := by
  have behind : (text.take 6).drop (leading text).length = (text.take 6).dropWhile isDecimal := by
    conv_lhs => rw [← List.takeWhile_append_dropWhile (p := isDecimal) (l := text.take 6)]
    exact List.drop_left
  intro c isNext
  have stops := List.head?_dropWhile_not isDecimal (text.take 6)
  rw [← behind, List.drop_take, List.head?_take, if_neg (by omega), isNext] at stops
  exact stops

theorem fraction_point (text : List Char) :
    fraction ('.' :: text) =
      if leading text = [] then none
      else some (ofDigits 10 ((leading text).filterMap decimalValue?) *
        10 ^ (6 - (leading text).length), text.drop (leading text).length) := by
  have length : ((leading text).filterMap decimalValue?).length = (leading text).length :=
    List.filterMap_length_eq_length.mpr decimal_of_mem_leading
  have empty : (leading text).filterMap decimalValue? = [] ↔ leading text = [] := by
    rw [← List.length_eq_zero_iff, length, List.length_eq_zero_iff]
  change (if _ then none else some _) = _
  simp only [values_leading, empty, length, Nat.pow_eq]

theorem fraction_of_ne_point (noPoint : text.head? ≠ some '.') :
    fraction text = some (0, text) := by
  unfold fraction
  split
  case h_1 => exact absurd rfl noPoint
  case h_2 => rfl

theorem fraction_eq_some_iff {microseconds : Nat} :
    fraction text = some (microseconds, rest) ↔
      ∃ f : Option Fraction, text = f.elim [] Fraction.text ++ rest ∧
        f.elim 0 Fraction.microseconds = microseconds ∧ EndsFraction f rest := by
  constructor
  · intro read
    by_cases point : text.head? = some '.'
    · obtain ⟨tail, rfl⟩ : ∃ tail, text = '.' :: tail := ⟨_, List.eq_cons_of_mem_head? point⟩
      rw [fraction_point] at read
      split at read
      case isTrue => cases read
      case isFalse some =>
        cases read
        let f : Fraction := ⟨_, ⟨leading tail, rfl, decimal_of_mem_leading⟩,
          List.length_pos_iff.mpr some, length_leading_le tail⟩
        exact ⟨Option.some f, congrArg _ (leading_append_drop tail).symm, rfl, ends_leading⟩
    · rw [fraction_of_ne_point point] at read
      cases read
      exact ⟨none, rfl, rfl, point⟩
  · rintro ⟨_ | f, rfl, rfl, ends⟩
    · exact fraction_of_ne_point ends
    · have isLeading : leading (f.digits.text ++ rest) = f.digits.text :=
        leading_append f.digits.decimal (f.digits.length_eq.trans_le f.le_six)
          (by rw [f.digits.length_eq]; exact ends)
      have some : f.digits.text ≠ [] := by
        rw [← List.length_pos_iff, f.digits.length_eq]
        exact f.positive
      change fraction ('.' :: (f.digits.text ++ rest)) = _
      rw [fraction_point, isLeading, if_neg some, f.digits.length_eq,
        List.drop_left' f.digits.length_eq]
      rfl

theorem date_eq_some_iff {d : Date} :
    date text = some (d, rest) ↔ ∃ (year : Digits 4) (month day : Digits 2),
      text = year.text ++ '-' :: (month.text ++ '-' :: (day.text ++ rest)) ∧
        ⟨year.value, month.value, day.value⟩ = d := by
  simp only [date, bind_eq_some_iff, digits_eq_some_iff, mark_eq_some_iff, pure_eq_some_iff]
  constructor
  · rintro ⟨_, _, ⟨year, rfl, rfl⟩, _, _, rfl, _, _, ⟨month, rfl, rfl⟩, _, _, rfl, _, _,
      ⟨day, rfl, rfl⟩, rfl, rfl⟩
    exact ⟨year, month, day, rfl, rfl⟩
  · rintro ⟨year, month, day, rfl, rfl⟩
    exact ⟨_, _, ⟨year, rfl, rfl⟩, (), _, rfl, _, _, ⟨month, rfl, rfl⟩, (), _, rfl, _, _,
      ⟨day, rfl, rfl⟩, rfl, rfl⟩

/-- A mark that stands for a value. -/
theorem marked_eq_some_iff {α : Type} {c : Char} {a b : α} :
    (mark c >>= fun _ => pure a : Reader α) text = some (b, rest) ↔ text = c :: rest ∧ a = b := by
  simp only [bind_eq_some_iff, mark_eq_some_iff, pure_eq_some_iff]
  constructor
  · rintro ⟨_, _, isText, same, rfl⟩
    exact ⟨isText, same⟩
  · rintro ⟨isText, same⟩
    exact ⟨(), rest, isText, same, rfl⟩

theorem marked_eq_none_iff {α : Type} {c : Char} {a : α} :
    (mark c >>= fun _ => pure a : Reader α) text = none ↔ text.head? ≠ some c := by
  rw [← mark_eq_none_iff]
  change (mark c text).bind (fun found => some (a, found.2)) = none ↔ _
  cases mark c text <;> simp

theorem sign_eq_some_iff {negative : Bool} :
    ((do mark '+'; return false) <|> (do mark '-'; return true) : Reader Bool) text =
      some (negative, rest) ↔ text = (if negative then '-' else '+') :: rest := by
  change ((mark '+' >>= fun _ => pure false : Reader Bool) text <|>
    (mark '-' >>= fun _ => pure true : Reader Bool) text) = _ ↔ _
  rw [Option.orElse_eq_some, marked_eq_some_iff, marked_eq_some_iff, marked_eq_none_iff]
  constructor
  · rintro (⟨rfl, rfl⟩ | ⟨-, rfl, rfl⟩) <;> rfl
  · rintro rfl
    cases negative with
    | false => exact .inl ⟨rfl, rfl⟩
    | true => exact .inr ⟨by simp, rfl, rfl⟩

theorem endsFraction_nil (f : Option Fraction) : EndsFraction f [] := by
  cases f with
  | none => simp [EndsFraction]
  | some f => simp [EndsFraction]

/-- The seconds of an offset, as far as they are written. -/
theorem offsetSeconds_eq_some_iff {negative : Bool} {hour minute : Nat}
    {o : Option OffsetFields} :
    (if text.isEmpty then pure (some { negative, hour, minute })
      else do
        mark ':'
        let second ← digits 2
        return some { negative, hour, minute, second, microsecond := ← fraction } :
        Reader (Option OffsetFields)) text = some (o, []) ↔
      ∃ second : Option (Digits 2 × Option Fraction),
        text = second.elim [] (':' :: secondText ·) ∧
          some ⟨negative, hour, minute, second.elim 0 (·.1.value),
            second.elim 0 (·.2.elim 0 Fraction.microseconds)⟩ = o := by
  cases text with
  | nil =>
    simp only [List.isEmpty_nil, if_true, pure_eq_some_iff, and_true]
    constructor
    · intro same
      exact ⟨none, rfl, same⟩
    · rintro ⟨_ | second, absent, same⟩
      · exact same
      · cases absent
  | cons c tail =>
    simp only [List.isEmpty_cons, Bool.false_eq_true, if_false, bind_eq_some_iff,
      mark_eq_some_iff, digits_eq_some_iff, fraction_eq_some_iff, pure_eq_some_iff]
    constructor
    · rintro ⟨_, _, isMark, _, _, ⟨second, rfl, rfl⟩, _, _, ⟨f, rfl, rfl, -⟩, same, rfl⟩
      refine ⟨some (second, f), ?_, same⟩
      rw [isMark, List.append_nil]
      rfl
    · rintro ⟨_ | ⟨second, f⟩, present, same⟩
      · cases present
      · refine ⟨(), _, present, _, _, ⟨second, rfl, rfl⟩, _, [], ⟨f, ?_, rfl, endsFraction_nil f⟩,
          same, rfl⟩
        rw [List.append_nil]

theorem offset_eq_some_iff {o : Option OffsetFields} :
    offset text = some (o, []) ↔
      ∃ w : Option Offset, text = w.elim [] Offset.text ∧ w.map Offset.fields = o := by
  unfold offset
  rw [atEnd_bind]
  cases text with
  | nil =>
    simp only [List.isEmpty_nil, if_true, pure_eq_some_iff, and_true]
    constructor
    · intro same
      exact ⟨none, rfl, same⟩
    · rintro ⟨_ | w, absent, same⟩
      · exact same
      · cases absent
  | cons c tail =>
    simp only [List.isEmpty_cons, Bool.false_eq_true, if_false, bind_eq_some_iff,
      sign_eq_some_iff, digits_eq_some_iff, mark_eq_some_iff, atEnd_bind,
      offsetSeconds_eq_some_iff]
    constructor
    · rintro ⟨negative, _, isSign, _, _, ⟨hour, rfl, rfl⟩, _, _, rfl, _, _, ⟨minute, rfl, rfl⟩,
        second, rfl, same⟩
      exact ⟨some ⟨negative, hour, minute, second⟩, isSign, same⟩
    · rintro ⟨_ | w, present, same⟩
      · cases present
      · exact ⟨w.negative, _, present, _, _, ⟨w.hour, rfl, rfl⟩, (), _, rfl, _, _,
          ⟨w.minute, rfl, rfl⟩, w.second, rfl, same⟩

/-- No offset goes on with a fraction before it. -/
theorem endsFraction_offset (f : Option Fraction) (w : Option Offset) :
    EndsFraction f (w.elim [] Offset.text) := by
  cases w with
  | none => exact endsFraction_nil f
  | some w =>
    have sign : w.text.head? = some '-' ∨ w.text.head? = some '+' := by
      cases isNegative : w.negative <;> simp [Offset.text, isNegative]
    have noDecimal : isDecimal '-' = false ∧ isDecimal '+' = false := by decide +kernel
    cases f <;> rcases sign with sign | sign <;> simp [EndsFraction, sign, noDecimal]

theorem time_eq_some_iff {fields : TimeFields} (blank : Bool) :
    time text = some (fields, []) ↔
      ∃ w : Time, w.blank = blank ∧ text = w.text ∧ w.fields = fields := by
  simp only [time, bind_eq_some_iff, digits_eq_some_iff, mark_eq_some_iff, fraction_eq_some_iff,
    pure_eq_some_iff]
  constructor
  · rintro ⟨_, _, ⟨hour, rfl, rfl⟩, _, _, rfl, _, _, ⟨minute, rfl, rfl⟩, _, _, rfl, _, _,
      ⟨second, rfl, rfl⟩, _, _, ⟨f, rfl, rfl, -⟩, _, _, isOffset, rfl, rfl⟩
    obtain ⟨offset, rfl, rfl⟩ := offset_eq_some_iff.mp isOffset
    refine ⟨⟨blank, hour, minute, second, f, offset⟩, rfl, ?_, rfl⟩
    simp only [Time.text, secondText, List.append_assoc]
  · rintro ⟨w, -, rfl, rfl⟩
    refine ⟨_, _, ⟨w.hour, rfl, rfl⟩, (), _, rfl, _, _, ⟨w.minute, rfl, rfl⟩, (), _, rfl, _, _,
      ⟨w.second, ?_, rfl⟩, _, _, ⟨w.fraction, rfl, rfl, endsFraction_offset _ w.offset⟩, _, _,
      offset_eq_some_iff.mpr ⟨w.offset, rfl, rfl⟩, rfl, rfl⟩
    simp only [secondText, List.append_assoc]

theorem separator_eq_some_iff {u : Unit} :
    (mark ' ' <|> mark 'T') text = some (u, rest) ↔
      ∃ blank : Bool, text = (if blank then ' ' else 'T') :: rest := by
  change (mark ' ' text <|> mark 'T' text) = _ ↔ _
  rw [Option.orElse_eq_some, mark_eq_some_iff, mark_eq_some_iff, mark_eq_none_iff]
  constructor
  · rintro (rfl | ⟨-, rfl⟩)
    · exact ⟨true, rfl⟩
    · exact ⟨false, rfl⟩
  · rintro ⟨_ | _, rfl⟩
    · exact .inr ⟨by simp, rfl⟩
    · exact .inl rfl

/-- What stands behind the day. -/
theorem timeOfDay_eq_some_iff {d : Date} {f : Fields} :
    (if text.isEmpty then pure ⟨d, none⟩
      else do
        mark ' ' <|> mark 'T'
        let time ← time
        if ← atEnd then return ⟨d, some time⟩ else failure : Reader Fields) text = some (f, rest) ↔
      rest = [] ∧ ∃ w : Option Time, text = (w.elim [] fun time => time.separator :: time.text) ∧
        ⟨d, w.map Time.fields⟩ = f := by
  cases text with
  | nil =>
    simp only [List.isEmpty_nil, if_true, pure_eq_some_iff]
    constructor
    · rintro ⟨same, rfl⟩
      exact ⟨rfl, none, rfl, same⟩
    · rintro ⟨rfl, _ | w, absent, same⟩
      · exact ⟨same, rfl⟩
      · cases absent
  | cons c tail =>
    simp only [List.isEmpty_cons, Bool.false_eq_true, if_false, bind_eq_some_iff,
      separator_eq_some_iff, atEnd_bind]
    constructor
    · rintro ⟨_, _, ⟨blank, isSeparator⟩, time, left, isTime, done⟩
      cases left with
      | cons => cases done
      | nil =>
        obtain ⟨rfl, rfl⟩ := pure_eq_some_iff.mp done
        obtain ⟨w, rfl, rfl, rfl⟩ := (time_eq_some_iff blank).mp isTime
        exact ⟨rfl, some w, isSeparator, rfl⟩
    · rintro ⟨rfl, _ | w, present, same⟩
      · cases present
      · exact ⟨(), _, ⟨w.blank, present⟩, w.fields, [],
          (time_eq_some_iff w.blank).mpr ⟨w, rfl, rfl, rfl⟩, pure_eq_some_iff.mpr ⟨same, rfl⟩⟩

/-- What is read as a date are the texts in the written form. -/
theorem fields_eq_some_iff {f : Fields} :
    fields text = some (f, rest) ↔ rest = [] ∧ ∃ w : Written, text = w.text ∧ w.fields = f := by
  simp only [fields, bind_eq_some_iff, date_eq_some_iff, atEnd_bind, timeOfDay_eq_some_iff]
  constructor
  · rintro ⟨_, _, ⟨year, month, day, rfl, rfl⟩, rfl, time, rfl, same⟩
    exact ⟨rfl, ⟨year, month, day, time⟩, rfl, same⟩
  · rintro ⟨rfl, w, rfl, same⟩
    exact ⟨w.date, _, ⟨w.year, w.month, w.day, rfl, rfl⟩, rfl, w.time, rfl, same⟩

end Reading

/-! ### Line ends -/

namespace Written

theorem Digits.lineFeed_not_mem {width : Nat} (d : Digits width) : '\n' ∉ d.text := by
  intro among
  have decimal := d.decimal _ among
  revert decimal
  decide +kernel

theorem secondText_lineFeed_not_mem (second : Digits 2 × Option Fraction) :
    '\n' ∉ secondText second := by
  obtain ⟨digits, _ | f⟩ := second <;>
    simp [secondText, Fraction.text, Digits.lineFeed_not_mem]

theorem Offset.lineFeed_not_mem (o : Offset) : '\n' ∉ o.text := by
  obtain ⟨negative, hour, minute, _ | second⟩ := o <;> cases negative <;>
    simp [Offset.text, Digits.lineFeed_not_mem, secondText_lineFeed_not_mem]

theorem Time.lineFeed_not_mem (t : Time) : '\n' ∉ t.separator :: t.text := by
  obtain ⟨blank, hour, minute, second, f, _ | offset⟩ := t <;> cases blank <;>
    simp [Time.text, Time.separator, Digits.lineFeed_not_mem, secondText_lineFeed_not_mem,
      Offset.lineFeed_not_mem]

theorem lineFeed_not_mem_text (w : Written) : '\n' ∉ w.text := by
  obtain ⟨year, month, day, _ | time⟩ := w
  · simp [text, Digits.lineFeed_not_mem]
  · simpa [text, Digits.lineFeed_not_mem] using time.lineFeed_not_mem

end Written

/-! ### Ranges -/

theorem decimalValue?_lt {c : Char} {value : Nat} (isValue : decimalValue? c = some value) :
    value < 10 := by
  obtain ⟨first, isFirst, rfl⟩ := Option.map_eq_some_iff.mp isValue
  have within := List.find?_some isFirst
  simp only [Bool.and_eq_true, decide_eq_true_eq] at within
  omega

namespace Written

theorem Digits.value_lt {width : Nat} (d : Digits width) : d.value < 10 ^ width := by
  have length : (d.text.filterMap decimalValue?).reverse.length = width := by
    rw [List.length_reverse, List.filterMap_length_eq_length.mpr d.decimal, d.length_eq]
  have small : ∀ value ∈ (d.text.filterMap decimalValue?).reverse, value < 10 := by
    intro value among
    obtain ⟨c, -, isValue⟩ := List.mem_filterMap.mp (List.mem_reverse.mp among)
    exact decimalValue?_lt isValue
  have bound := Nat.ofDigits_lt_base_pow_length (by decide) small
  rw [length, ← Text.ofDigits_eq_ofDigits_reverse] at bound
  exact bound

/-- So many places and those that are left out are six. -/
theorem pow_places {places : Nat} (few : places ≤ 6) :
    10 ^ places * 10 ^ (6 - places) = 1000000 := by
  rw [← Nat.pow_add, Nat.add_sub_cancel' few]

theorem Fraction.microseconds_lt (f : Fraction) : f.microseconds < 1000000 := by
  rw [microseconds, ← pow_places f.le_six]
  exact Nat.mul_lt_mul_of_pos_right f.digits.value_lt (Nat.pow_pos (by decide))

/-- The length of an offset in microseconds, whichever its sign is. -/
def Offset.length (o : Offset) : Nat :=
  ((o.fields.hour * 60 + o.fields.minute) * 60 + o.fields.second) * 1000000 + o.fields.microsecond

theorem Offset.natAbs_microseconds (o : Offset) : o.fields.microseconds.natAbs = o.length := by
  unfold OffsetFields.microseconds Offset.length
  dsimp only
  split <;> omega

/-- The fields are those of a day of the calendar and of a time of day, and the offset is shorter
than a day. -/
structure InRange (w : Written) : Prop where
  date : w.date.Valid
  clock : ∀ t ∈ w.time, t.hour.value < 24 ∧ t.minute.value < 60 ∧ t.second.value < 60
  offset : ∀ t ∈ w.time, ∀ o ∈ t.offset, o.length < microsecondsPerDay

/-- The fields make a moment exactly if they are in their ranges. -/
theorem isSome_moment?_iff (w : Written) : w.fields.moment?.isSome ↔ w.InRange := by
  obtain ⟨year, month, day, _ | t⟩ := w
  · have whole : (fields ⟨year, month, day, none⟩).moment?.isSome ↔
        (date ⟨year, month, day, none⟩).Valid := Option.isSome_ite
    rw [whole]
    exact ⟨fun valid => ⟨valid, by simp, by simp⟩, InRange.date⟩
  · have microsecond : t.fields.microsecond < 1000000 := by
      cases isFraction : t.fraction with
      | none => simp [Time.fields, isFraction]
      | some f => simpa [Time.fields, isFraction] using f.microseconds_lt
    have offset : (∀ offset ∈ (t.offset.map Offset.fields).map OffsetFields.microseconds,
        offset.natAbs < microsecondsPerDay) ↔ ∀ o ∈ t.offset, o.length < microsecondsPerDay := by
      cases t.offset <;> simp [← Offset.natAbs_microseconds]
    have whole : (fields ⟨year, month, day, some t⟩).moment?.isSome ↔
        (date ⟨year, month, day, some t⟩).Valid ∧ t.hour.value < 24 ∧ t.minute.value < 60 ∧
          t.second.value < 60 ∧ t.fields.microsecond < 1000000 ∧
          ∀ offset ∈ (t.offset.map Offset.fields).map OffsetFields.microseconds,
            offset.natAbs < microsecondsPerDay := Option.isSome_ite
    rw [whole, offset]
    constructor
    · rintro ⟨valid, hour, minute, second, -, offset⟩
      exact ⟨valid, by simp [hour, minute, second], by simpa using offset⟩
    · rintro ⟨valid, clock, offset⟩
      obtain ⟨hour, minute, second⟩ := clock t rfl
      exact ⟨valid, hour, minute, second, microsecond, offset t rfl⟩

end Written

end LazyConfig.Calendar
