import LazyConfig.Conversion.Form
import LazyConfig.Proofs.Calendar.Written
import Mathlib.Data.List.TakeWhile

/-!
# The rules of conversion

A text is converted by the first rule whose form it has: that of dates, of variables or of objects.
No text has the forms of two rules. The forms are described here as what may be written, and a rule
is tried on a text without the line feed at its end, if there is one; otherwise no line feed may be
in the text, not even in what stands in for a missing variable.
-/

namespace LazyConfig.Conversion

open Calendar (Fields Written)
open Text (isWordChar isDecimal)

variable {text body : List Char}

/-! ### Rules and forms -/

/-- A rule, with what it takes from the text. -/
inductive Rule where
  | moment (fields : Fields)
  | environment (name : String) (standIn : Option String)
  | object (name : String) (member : Option String)

/-- The names with points between them. -/
def dotted (names : List (List Char)) : List Char := ['.'].intercalate names

/-- The texts that a rule is for. -/
inductive Rule.Form : Rule → List Char → Prop
  | moment (w : Written) : Form (.moment w.fields) w.text
  | environment {name : List Char} (nonempty : name ≠ []) (word : ∀ c ∈ name, isWordChar c) :
      Form (.environment (String.ofList name) none) ('$' :: name)
  | standIn {name : List Char} (nonempty : name ≠ []) (word : ∀ c ∈ name, isWordChar c)
      (standIn : List Char) :
      Form (.environment (String.ofList name) (some (String.ofList standIn)))
        ('$' :: (name ++ '|' :: standIn))
  | object {names : List (List Char)} (nonempty : names ≠ []) (named : ∀ name ∈ names, isName name) :
      Form (.object (String.ofList (dotted names)) none) (dotted names)
  | member {names : List (List Char)} {member : List Char} (nonempty : names ≠ [])
      (named : ∀ name ∈ names, isName name) (isMember : isName member) :
      Form (.object (String.ofList (dotted names)) (some (String.ofList member)))
        (dotted names ++ ':' :: member)

/-- The first rule that takes the text. -/
def rule? (text : List Char) : Option Rule :=
  ((Calendar.fields? text).map .moment).or
    (((environmentName? text).map fun (name, standIn) => .environment name standIn).or
      ((objectName? text).map fun (name, member) => .object name member))

/-! ### Line ends -/

theorem dropLineEnd_append : dropLineEnd (body ++ ['\n']) = body := by
  simp [dropLineEnd]

theorem dropLineEnd_of_not_mem (noFeed : '\n' ∉ body) : dropLineEnd body = body :=
  if_neg fun isLast => noFeed (List.mem_of_getLast? isLast)

theorem dropLineEnd_eq_iff (noFeed : '\n' ∉ body) :
    dropLineEnd text = body ↔ text = body ∨ text = body ++ ['\n'] := by
  constructor
  · intro same
    by_cases isLast : text.getLast? = some '\n'
    · obtain ⟨before, rfl⟩ := List.getLast?_eq_some_iff.mp isLast
      rw [dropLineEnd_append] at same
      exact .inr (same ▸ rfl)
    · rw [dropLineEnd, if_neg isLast] at same
      exact .inl same
  · rintro (rfl | rfl)
    · exact dropLineEnd_of_not_mem noFeed
    · exact dropLineEnd_append

/-! ### Characters of names -/

theorem toNat_lt_of_startsName {c : Char} (starts : startsName c) : c.toNat < 123 := by
  change ((decide ('A'.val ≤ c.val ∧ c.val ≤ 'Z'.val) ||
    (decide ('a'.val ≤ c.val) && decide (c.val ≤ 'z'.val))) || decide (c = '_')) = true at starts
  simp only [Bool.or_eq_true, Bool.and_eq_true, decide_eq_true_eq] at starts
  rcases starts with (⟨-, upper⟩ | ⟨-, lower⟩) | rfl
  · exact Nat.lt_of_le_of_lt upper (by decide)
  · exact Nat.lt_of_le_of_lt lower (by decide)
  · decide

theorem plain_of_startsName {c : Char} (starts : startsName c) :
    isWordChar c ∧ isDecimal c = false := by
  -- the letters that start names are among the first characters, and all of these are tried
  have all : ∀ n < 123, !startsName (Char.ofNat n) ||
      (isWordChar (Char.ofNat n) && !isDecimal (Char.ofNat n)) := by
    decide +kernel
  have holds := Text.holds_of_toNat_lt
    (p := fun c => !startsName c || (isWordChar c && !isDecimal c)) all
    (toNat_lt_of_startsName starts)
  simpa [starts] using holds

theorem isWordChar_of_isName {name : List Char} (named : isName name) :
    ∀ c ∈ name, isWordChar c := by
  cases name with
  | nil => simp
  | cons first rest =>
    obtain ⟨starts, others⟩ := Bool.and_eq_true_iff.mp named
    exact List.forall_mem_cons.mpr ⟨(plain_of_startsName starts).1, List.all_eq_true.mp others⟩

/-- Characters that are no part of words are no part of names. -/
theorem not_mem_of_isName {name : List Char} (named : isName name) {c : Char}
    (noWord : isWordChar c = false) : c ∉ name := fun among => by
  rw [isWordChar_of_isName named c among] at noWord
  cases noWord

/-- Points and the characters of words make up dotted names. -/
theorem mem_dotted {names : List (List Char)} (named : ∀ name ∈ names, isName name) {c : Char}
    (among : c ∈ dotted names) : c = '.' ∨ isWordChar c := by
  match names with
  | [] => cases among
  | [name] =>
    rw [dotted, List.intercalate_singleton] at among
    exact .inr (isWordChar_of_isName (named name List.mem_cons_self) c among)
  | first :: second :: others =>
    rw [dotted, List.intercalate_cons_cons, List.mem_append, List.mem_append,
      List.mem_singleton] at among
    rcases among with (among | point) | among
    · exact .inr (isWordChar_of_isName (named first List.mem_cons_self) c among)
    · exact .inl point
    · exact mem_dotted (List.forall_mem_cons.mp named).2 among

theorem not_mem_dotted {names : List (List Char)} (named : ∀ name ∈ names, isName name) {c : Char}
    (noPoint : c ≠ '.') (noWord : isWordChar c = false) : c ∉ dotted names := fun among => by
  rcases mem_dotted named among with point | word
  · exact noPoint point
  · rw [word] at noWord
    cases noWord

/-! ### The forms read -/

theorem fields?_eq_some_iff {f : Fields} :
    Calendar.fields? text = some f ↔
      (Rule.moment f).Form (dropLineEnd text) ∧ '\n' ∉ dropLineEnd text := by
  have read : Calendar.fields? text = some f ↔
      Calendar.Reading.fields (dropLineEnd text) = some (f, []) := by
    change (Calendar.Reading.fields (dropLineEnd text)).map (·.1) = some f ↔ _
    rw [Option.map_eq_some_iff]
    constructor
    · rintro ⟨⟨_, rest⟩, read, rfl⟩
      obtain ⟨rfl, -⟩ := Calendar.Reading.fields_eq_some_iff.mp read
      exact read
    · intro read
      exact ⟨_, read, rfl⟩
  rw [read, Calendar.Reading.fields_eq_some_iff]
  constructor
  · rintro ⟨-, w, isText, rfl⟩
    rw [isText]
    exact ⟨.moment w, w.lineFeed_not_mem_text⟩
  · rintro ⟨form, -⟩
    generalize dropLineEnd text = body at form
    cases form with
    | moment w => exact ⟨rfl, w, rfl, rfl⟩

theorem environmentName?_eq_some_iff {name : String} {standIn : Option String} :
    environmentName? text = some (name, standIn) ↔
      (Rule.environment name standIn).Form (dropLineEnd text) ∧ '\n' ∉ dropLineEnd text := by
  have noFeed : isWordChar '\n' = false := by decide +kernel
  have noBar : isWordChar '|' = false := by decide +kernel
  unfold environmentName?
  generalize dropLineEnd text = body
  constructor
  · intro read
    split at read
    case h_2 => cases read
    case h_1 rest =>
      -- the name goes as far as it can
      have whole := List.takeWhile_append_dropWhile (p := isWordChar) (l := rest)
      have word : ∀ c ∈ rest.takeWhile isWordChar, isWordChar c :=
        List.all_eq_true.mp List.all_takeWhile
      have clean : '\n' ∉ rest.takeWhile isWordChar := fun among => by
        rw [word _ among] at noFeed
        cases noFeed
      dsimp only at read
      generalize rest.takeWhile isWordChar = name at *
      generalize rest.dropWhile isWordChar = behind at *
      subst whole
      split at read
      case isTrue => cases read
      case isFalse nonempty =>
        split at read
        · cases read
          rw [List.append_nil]
          exact ⟨.environment nonempty word, by simp [clean]⟩
        case h_2 standIn =>
          split at read
          · cases read
          case isFalse noFeedBehind =>
            cases read
            exact ⟨.standIn nonempty word standIn, by simpa [clean] using noFeedBehind⟩
        · cases read
  · rintro ⟨form, clean⟩
    cases form with
    | @environment name nonempty word =>
      have all : name.takeWhile isWordChar = name := List.takeWhile_eq_self_iff.mpr word
      have none : name.dropWhile isWordChar = [] := List.dropWhile_eq_nil_iff.mpr word
      simp only [all, none, if_neg nonempty]
    | @standIn name nonempty word standIn =>
      have all : (name ++ '|' :: standIn).takeWhile isWordChar = name := by
        rw [List.takeWhile_append_of_pos word, List.takeWhile_cons_of_neg (by simp [noBar]),
          List.append_nil]
      have behind : (name ++ '|' :: standIn).dropWhile isWordChar = '|' :: standIn := by
        rw [List.dropWhile_append_of_pos word, List.dropWhile_cons_of_neg (by simp [noBar])]
      have noFeedBehind : ¬standIn.contains '\n' := by
        simp only [List.mem_cons, List.mem_append, not_or] at clean
        simpa using clean.2.2.2
      simp only [all, behind, if_neg nonempty, if_neg noFeedBehind]

theorem objectName?_eq_some_iff {name : String} {member : Option String} :
    objectName? text = some (name, member) ↔
      (Rule.object name member).Form (dropLineEnd text) ∧ '\n' ∉ dropLineEnd text := by
  have noFeed : isWordChar '\n' = false := by decide +kernel
  have noColon : isWordChar ':' = false := by decide +kernel
  have noPoint : isWordChar '.' = false := by decide +kernel
  unfold objectName?
  generalize dropLineEnd text = body
  constructor
  · intro read
    -- a colon ends the name, and the points in it are those between its parts
    have whole := List.takeWhile_append_dropWhile (p := (· ≠ ':')) (l := body)
    have stops := List.head?_dropWhile_not (· ≠ ':') body
    dsimp only at read
    generalize body.takeWhile (· ≠ ':') = name at *
    generalize body.dropWhile (· ≠ ':') = behind at *
    subst whole
    split at read
    case isTrue => cases read
    case isFalse named =>
      have named : ∀ part ∈ parts name, isName part := by simpa using named
      have isDotted : dotted (parts name) = name := List.intercalate_splitOn '.'
      have nonempty : parts name ≠ [] := List.splitOn_ne_nil '.' name
      have clean : '\n' ∉ name := isDotted ▸ not_mem_dotted named (by decide) noFeed
      split at read
      · cases read
        have form := Rule.Form.object nonempty named
        rw [isDotted] at form
        rw [List.append_nil]
        exact ⟨form, clean⟩
      case h_2 colon member =>
        obtain rfl : colon = ':' := by simpa using stops
        split at read
        case isFalse => cases read
        case isTrue isMember =>
          cases read
          have form := Rule.Form.member nonempty named isMember
          rw [isDotted] at form
          have cleanBehind := not_mem_of_isName isMember noFeed
          exact ⟨form, by simp [clean, cleanBehind]⟩
  · rintro ⟨form, -⟩
    -- the name ends in front of the first colon, if there is one
    have beforeColon {names : List (List Char)} (named : ∀ name ∈ names, isName name) :
        ∀ c ∈ dotted names, decide (c ≠ ':') := fun c among =>
      decide_eq_true (ne_of_mem_of_not_mem among (not_mem_dotted named (by decide) noColon))
    have isParts {names : List (List Char)} (nonempty : names ≠ [])
        (named : ∀ name ∈ names, isName name) : parts (dotted names) = names :=
      List.splitOn_intercalate '.' (fun name among => not_mem_of_isName (named name among) noPoint)
        nonempty
    cases form with
    | @object names nonempty named =>
      have all := List.takeWhile_eq_self_iff.mpr (beforeColon named)
      have none := List.dropWhile_eq_nil_iff.mpr (beforeColon named)
      have allNamed : names.all isName := List.all_eq_true.mpr named
      simp only [all, none, isParts nonempty named, allNamed, Bool.not_true, Bool.false_eq_true,
        if_false]
    | @member names member nonempty named isMember =>
      have all : (dotted names ++ ':' :: member).takeWhile (· ≠ ':') = dotted names := by
        rw [List.takeWhile_append_of_pos (beforeColon named), List.takeWhile_cons_of_neg (by simp),
          List.append_nil]
      have behind : (dotted names ++ ':' :: member).dropWhile (· ≠ ':') = ':' :: member := by
        rw [List.dropWhile_append_of_pos (beforeColon named), List.dropWhile_cons_of_neg (by simp)]
      have allNamed : names.all isName := List.all_eq_true.mpr named
      simp only [all, behind, isParts nonempty named, allNamed, isMember, Bool.not_true,
        Bool.false_eq_true, if_false, if_true]

/-! ### One rule for a text -/

/-- The characters that the texts of a rule start with. -/
def Rule.startsWith : Rule → Char → Bool
  | .moment _, c => isDecimal c
  | .environment _ _, c => c = '$'
  | .object _ _, c => startsName c

theorem exists_head_digits {width : Nat} (positive : 0 < width) (d : Written.Digits width)
    (behind : List Char) : ∃ c ∈ (d.text ++ behind).head?, isDecimal c := by
  obtain ⟨first, others, isText⟩ := List.exists_cons_of_length_pos (d.length_eq ▸ positive)
  refine ⟨first, by rw [isText]; rfl, d.decimal first ?_⟩
  rw [isText]
  exact List.mem_cons_self

theorem exists_head_dotted {names : List (List Char)} (nonempty : names ≠ [])
    (named : ∀ name ∈ names, isName name) (behind : List Char) :
    ∃ c ∈ (dotted names ++ behind).head?, startsName c := by
  obtain ⟨name, others, rfl⟩ := List.exists_cons_of_ne_nil nonempty
  have isFirst := named name List.mem_cons_self
  cases name with
  | nil => cases isFirst
  | cons first rest =>
    refine ⟨first, ?_, (Bool.and_eq_true_iff.mp isFirst).1⟩
    cases others with
    | nil => rfl
    | cons second others =>
      rw [dotted, List.intercalate_cons_cons]
      rfl

theorem Rule.Form.exists_head {r : Rule} (form : r.Form body) :
    ∃ c ∈ body.head?, r.startsWith c := by
  cases form with
  | moment w => exact exists_head_digits (by decide) w.year _
  | environment => exact ⟨'$', rfl, rfl⟩
  | standIn => exact ⟨'$', rfl, rfl⟩
  | object nonempty named =>
    have starts := exists_head_dotted nonempty named []
    rwa [List.append_nil] at starts
  | member nonempty named => exact exists_head_dotted nonempty named _

theorem Rule.Form.head {r : Rule} (form : r.Form body) {c : Char} (isHead : c ∈ body.head?) :
    r.startsWith c := by
  obtain ⟨first, isFirst, starts⟩ := form.exists_head
  rwa [Option.mem_unique isHead isFirst]

theorem fields?_eq_none_of_head {c : Char} (isHead : c ∈ (dropLineEnd text).head?)
    (noDigit : isDecimal c = false) : Calendar.fields? text = none := by
  refine Option.eq_none_iff_forall_ne_some.mpr fun f read => ?_
  have digit : isDecimal c := (fields?_eq_some_iff.mp read).1.head isHead
  rw [noDigit] at digit
  cases digit

theorem environmentName?_eq_none_of_head {c : Char} (isHead : c ∈ (dropLineEnd text).head?)
    (noDollar : c ≠ '$') : environmentName? text = none := by
  refine Option.eq_none_iff_forall_ne_some.mpr fun ⟨name, standIn⟩ read => noDollar ?_
  have dollar := (environmentName?_eq_some_iff.mp read).1.head isHead
  exact of_decide_eq_true dollar

theorem objectName?_eq_none_of_head {c : Char} (isHead : c ∈ (dropLineEnd text).head?)
    (noStart : startsName c = false) : objectName? text = none := by
  refine Option.eq_none_iff_forall_ne_some.mpr fun ⟨name, member⟩ read => ?_
  have starts : startsName c := (objectName?_eq_some_iff.mp read).1.head isHead
  rw [noStart] at starts
  cases starts

/-- A rule takes the texts in its form, on one line but for a line feed that may be at the end. -/
def Rule.Takes (r : Rule) (text : List Char) : Prop :=
  ∃ body, r.Form body ∧ '\n' ∉ body ∧ (text = body ∨ text = body ++ ['\n'])

theorem Rule.takes_iff {r : Rule} :
    r.Takes text ↔ r.Form (dropLineEnd text) ∧ '\n' ∉ dropLineEnd text := by
  constructor
  · rintro ⟨body, form, noFeed, same⟩
    obtain rfl := (dropLineEnd_eq_iff noFeed).mpr same
    exact ⟨form, noFeed⟩
  · rintro ⟨form, noFeed⟩
    exact ⟨_, form, noFeed, (dropLineEnd_eq_iff noFeed).mp rfl⟩

/-- A text goes to the rule that takes it: the rules before that one have other first characters. -/
theorem rule?_eq_some_iff {r : Rule} : rule? text = some r ↔ r.Takes text := by
  rw [Rule.takes_iff]
  cases r with
  | moment f =>
    rw [← fields?_eq_some_iff]
    simp [rule?]
  | environment name standIn =>
    rw [← environmentName?_eq_some_iff]
    constructor
    · intro taken
      simp only [rule?, Option.or_eq_some_iff, Option.map_eq_some_iff, reduceCtorEq, and_false,
        exists_false, false_or, or_false] at taken
      obtain ⟨-, ⟨_, read, same⟩⟩ := taken
      cases same
      exact read
    · intro read
      obtain ⟨c, isHead, dollar⟩ := (environmentName?_eq_some_iff.mp read).1.exists_head
      obtain rfl : c = '$' := of_decide_eq_true dollar
      -- a dollar sign is no digit
      have noDate := fields?_eq_none_of_head isHead (by decide +kernel)
      simp [rule?, noDate, read]
  | object name member =>
    rw [← objectName?_eq_some_iff]
    constructor
    · intro taken
      simp only [rule?, Option.or_eq_some_iff, Option.map_eq_some_iff, reduceCtorEq, and_false,
        exists_false, false_or] at taken
      obtain ⟨-, -, ⟨_, read, same⟩⟩ := taken
      cases same
      exact read
    · intro read
      obtain ⟨c, isHead, starts⟩ := (objectName?_eq_some_iff.mp read).1.exists_head
      change startsName c at starts
      have noDollar : c ≠ '$' := by
        rintro rfl
        exact absurd starts (by decide)
      have noDate := fields?_eq_none_of_head isHead (plain_of_startsName starts).2
      have noVariable := environmentName?_eq_none_of_head isHead noDollar
      simp [rule?, noDate, noVariable, read]

/-- No two rules take a text. -/
theorem Rule.Takes.unique {first second : Rule} (takes : first.Takes text)
    (alsoTakes : second.Takes text) : first = second :=
  Option.some.inj ((rule?_eq_some_iff.mpr takes).symm.trans (rule?_eq_some_iff.mpr alsoTakes))

end LazyConfig.Conversion
