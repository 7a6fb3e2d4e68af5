import LazyConfig.Proofs.Calendar.Style
import LazyConfig.Proofs.Conversion.Rule
import LazyConfig.Proofs.Evaluation.Run
import LazyConfig.Proofs.Resolution.Document

/-!
# The standard converter

The standard converter asks which rule takes a text, and goes by that rule. From the texts of dates and
times it makes the same dates and times again, in whichever style they are written. Rules take a text
without the line feed at its end, so that it is lost there.
-/

namespace LazyConfig.Conversion

open Calendar (Date DateTime Fields Moment Style Written)
open Eval
open Evaluation
open Text (isWordChar)

/-! ### What the rules give -/

/-- The value of a moment. -/
def momentValue (mark : Mark) : Moment → Value
  | .date d => .date d mark
  | .dateTime t => .dateTime t mark

/-- What a rule gives for what it has taken from a text. -/
def Rule.converted : Rule → Eval Converted
  | .moment fields => do
    match fields.moment? with
    | some found => return some (momentValue (← freshMark) found)
    | none => return none
  | .environment name standIn => do
    match ((← world).environment.lookup name).or standIn with
    | some found => return some (← newText found)
    | none => return some .null
  | .object name member => resolved name member

/-- What becomes of a text that no rule takes. -/
def untaken (m : Machine) (id : DocumentId) (text : List Char) : Eval Converted :=
  if (pieces text).any isPath then filledIn m id (pieces text) else return none

theorem standardConverted_eq (m : Machine) (id : DocumentId) (text : List Char) :
    standardConverted m id text =
      match rule? text with
      | some r => r.converted
      | none => untaken m id text := by
  unfold standardConverted rule?
  cases Calendar.fields? text with
  | some fields =>
    simp only [Option.map_some, Option.some_or, Rule.converted]
    rcases fields.moment? with _ | _ | _ <;> rfl
  | none =>
    cases environmentName? text with
    | some reference => rfl
    | none =>
      cases objectName? text with
      | some object => rfl
      | none => rfl

theorem run_converted_environment {environment : Environment} {s : Store} (name : String)
    (standIn : Option String) :
    (Rule.environment name standIn).converted.run environment s =
      match (environment.world.environment.lookup name).or standIn with
      | some found => (.ok (some (.text found (.ofText found (.made s.serial)))), s.fresh.2)
      | none => (.ok (some .null), s) := by
  rw [Rule.converted, run_bind, run_world]
  dsimp only
  cases (environment.world.environment.lookup name).or standIn <;> rfl

/-- A text is converted by the rule that takes it, whether or not a line feed is at its end. The text
`$NAME|standIn` is the value of the variable, or else what stands in for it, if that is on one
line. -/
theorem converted_by_rule (m : Machine) (id : DocumentId) :
    (∀ (text : List Char) (r : Rule), r.Takes text → standardConverted m id text = r.converted) ∧
      (∀ text : List Char, (∀ r : Rule, ¬r.Takes text) →
        standardConverted m id text = untaken m id text) ∧
      ∀ (environment : Environment) (s : Store) (name standIn : List Char), name ≠ [] →
        (∀ c ∈ name, isWordChar c) → '\n' ∉ standIn →
        let found := (environment.world.environment.lookup (String.ofList name)).getD
          (String.ofList standIn)
        (standardConverted m id ('$' :: (name ++ '|' :: standIn))).run environment s =
          (.ok (some (.text found (.ofText found (.made s.serial)))), s.fresh.2) := by
  have byRule (text : List Char) (r : Rule) (takes : r.Takes text) :
      standardConverted m id text = r.converted := by
    rw [standardConverted_eq, rule?_eq_some_iff.mpr takes]
  refine ⟨byRule, fun text noneTakes => ?_,
    fun environment s name standIn nonempty word noFeed => ?_⟩
  · have noRule : rule? text = none :=
      Option.eq_none_iff_forall_ne_some.mpr fun r isRule =>
        noneTakes r (rule?_eq_some_iff.mp isRule)
    rw [standardConverted_eq, noRule]
  · have oneLine : '\n' ∉ '$' :: (name ++ '|' :: standIn) := by
      have noFeedInName : '\n' ∉ name := fun among => by
        have noWord : isWordChar '\n' = false := by decide +kernel
        rw [word _ among] at noWord
        cases noWord
      simp [noFeedInName, noFeed]
    rw [byRule _ _ ⟨_, .standIn nonempty word standIn, oneLine, .inl rfl⟩,
      run_converted_environment]
    cases environment.world.environment.lookup (String.ofList name) <;> rfl

/-- Variables, and objects by their names. -/
def home : Environment where
  world := { files := ⟨[], []⟩, environment := [("HOME", "/root")] }
  settings := { resolver := .table [("os", .bool true)] }

/-- What becomes of a text, as messages show it. -/
def describedResult (text : String) : Option String :=
  let described : Eval (Option String) := do
    match ← standardConverted ⟨answerWithin 0⟩ 0 text.toList with
    | some v => return some (← describeWith (fun _ => pure "") v)
    | none => return none
  (described.run home {}).1.toOption.join

/-- What stands in for a variable may have any characters but line feeds. -/
theorem converted_by_rule_stand_in :
    (standardConverted ⟨answerWithin 0⟩ 0 "$NAME|a|$\x7bb\x7d".toList).run home {} =
      (.ok (some (.text "a|$\x7bb\x7d" (.made 0))), Store.fresh {} |>.2) :=
  (converted_by_rule ⟨answerWithin 0⟩ 0).2.2 home {} "NAME".toList "a|$\x7bb\x7d".toList
    (by decide) (List.all_eq_true.mp (by decide +kernel)) (by decide)

/-- Line feeds at the end are lost, behind a date, a variable, what stands in for one, or the name of
an object. What stands in for a variable on more than one line is not taken for that. -/
theorem line_feed_lost :
    ["2019-03-28\n", "$HOME\n", "$NAME|a\n", "os\n"].map describedResult =
        ["2019-03-28", "$HOME", "$NAME|a", "os"].map describedResult ∧
      ["2019-03-28\n", "$HOME\n", "$NAME|a\n", "os\n"].map describedResult =
        [some "datetime.date(2019, 3, 28)", some "'/root'", some "'a'", some "True"] ∧
      describedResult "$NAME|a\nb" = none := by
  decide +kernel

/-! ### Dates and times -/

/-- What becomes of a text, whatever is in the store: the moment as a value of its own, or else the
text stays as it is. -/
def Converts (text : List Char) (moment : Option Moment) : Prop :=
  ∀ (m : Machine) (id : DocumentId) (environment : Environment) (s : Store),
    (standardConverted m id text).run environment s =
      match moment with
      | some moment => (.ok (some (momentValue (.made s.serial) moment)), s.fresh.2)
      | none => (.ok none, s)

/-- A written date becomes the moment that its fields make, if they make one. -/
theorem converts_written (w : Written) : Converts w.text w.fields.moment? := by
  intro m id environment s
  have takes : (Rule.moment w.fields).Takes w.text :=
    ⟨_, .moment w, w.lineFeed_not_mem_text, .inl rfl⟩
  rw [standardConverted_eq, rule?_eq_some_iff.mpr takes]
  dsimp only
  rw [Rule.converted]
  cases w.fields.moment? <;> rfl

theorem converts_text {style : Style} {t : DateTime} (valid : t.Valid) (shows_ : style.Shows t) :
    Converts (style.text t).toList (some (.dateTime t)) := by
  obtain ⟨w, isText, isMoment⟩ := Calendar.exists_written valid shows_
  rw [← isText, ← isMoment]
  exact converts_written w

/-- The text of a date or time becomes that date or time: the standard text, with either separator,
and any other text of a time that leaves out no digits but zeros. A text of that form stays as it is
if a field is out of its range. -/
theorem moments_read_back :
    (∀ d : Date, d.Valid → Converts d.text.toList (some (.date d))) ∧
      (∀ t : DateTime, t.Valid →
        (∀ blank : Bool, Converts (t.text (if blank then " " else "T")).toList
          (some (.dateTime t))) ∧
        ∀ style : Style, style.Shows t → Converts (style.text t).toList (some (.dateTime t))) ∧
      ∀ w : Written, ¬w.InRange → Converts w.text none := by
  refine ⟨fun d valid => ?_, fun t valid => ⟨fun blank => ?_, fun style => converts_text valid⟩,
    fun w outside => ?_⟩
  · obtain ⟨w, isText, isFields⟩ := Calendar.exists_written_date valid
    have isMoment : w.fields.moment? = some (.date d) := by
      rw [isFields]
      exact if_pos valid
    rw [← isText, ← isMoment]
    exact converts_written w
  · rw [← Style.text_standard blank t]
    exact converts_text valid (Style.shows_standard blank t)
  · have noMoment : w.fields.moment? = none := by
      rw [← Option.not_isSome_iff_eq_none, Written.isSome_moment?_iff]
      exact outside
    rw [← noMoment]
    exact converts_written w

/-- The last half second of a leap day, as far behind universal time as can be. -/
def leapDay : DateTime where
  date := ⟨2024, 2, 29⟩
  hour := 23
  minute := 59
  second := 59
  microsecond := 500000
  offset := some (-86399999999)

/-- The same day of a common year. -/
def noLeapDay : Written where
  year := ⟨"2023".toList, rfl, List.all_eq_true.mp (by decide +kernel)⟩
  month := ⟨"02".toList, rfl, List.all_eq_true.mp (by decide +kernel)⟩
  day := ⟨"29".toList, rfl, List.all_eq_true.mp (by decide +kernel)⟩
  time := none

theorem moments_read_back_leap_day :
    Converts "2024-02-29".toList (some (.date leapDay.date)) ∧
      Converts "2024-02-29T23:59:59.500000-23:59:59.999999".toList (some (.dateTime leapDay)) ∧
      Converts "2024-02-29 23:59:59.50-23:59:59.999999".toList (some (.dateTime leapDay)) ∧
      Converts "2023-02-29".toList none := by
  have day := moments_read_back.1 leapDay.date (by decide)
  obtain ⟨standard, styled⟩ := moments_read_back.2.1 leapDay (by decide)
  have short := styled ⟨true, 2, some 6⟩
    ⟨⟨by decide, by decide⟩, by simp [leapDay, Style.ShowsFraction]⟩
  have outside : ¬noLeapDay.InRange := fun inRange => absurd inRange.date (by decide +kernel)
  have common := moments_read_back.2.2 noLeapDay outside
  have dayText : leapDay.date.text = "2024-02-29" := by decide +kernel
  have standardText : leapDay.text (if false then " " else "T") =
      "2024-02-29T23:59:59.500000-23:59:59.999999" := by decide +kernel
  have shortText : Style.text ⟨true, 2, some 6⟩ leapDay =
      "2024-02-29 23:59:59.50-23:59:59.999999" := by decide +kernel
  rw [dayText] at day
  rw [shortText] at short
  exact ⟨day, standardText ▸ standard false, short, common⟩

end LazyConfig.Conversion
