import LazyConfig.Calendar.Basic
import LazyConfig.Text.CharClass

/-!
# The written form of dates

Dates are written `YYYY-MM-DD`, times `HH:MM:SS` behind a `T` or a blank, with up to six digits of a
second's fraction and an offset `+HH:MM`, which may go on with seconds and their fraction. Digits
of any script are read. Fields in that form need not make a date of the calendar.
-/

namespace LazyConfig.Calendar

open Text (decimalValue? ofDigits)

/-- A sign and a length of time, as an offset writes it. -/
structure OffsetFields where
  negative : Bool
  hour : Nat
  minute : Nat
  second : Nat := 0
  microsecond : Nat := 0

structure TimeFields where
  hour : Nat
  minute : Nat
  second : Nat
  microsecond : Nat := 0
  offset : Option OffsetFields := none

structure Fields where
  date : Date
  time : Option TimeFields

/-- A date, with or without a time of day. -/
inductive Moment where
  | date (d : Date)
  | dateTime (t : DateTime)
deriving DecidableEq, Repr

/-! ### Reading -/

namespace Reading

/-- A reader takes characters from the head of a text, or refuses it. -/
abbrev Reader := StateT (List Char) Option

def mark (c : Char) : Reader Unit := fun text =>
  match text with
  | first :: rest => if first = c then some ((), rest) else none
  | [] => none

/-- Exactly so many decimal digits. -/
def digits (count : Nat) : Reader Nat := fun text =>
  let values := (text.take count).filterMap decimalValue?
  if values.length = count then some (ofDigits 10 values, text.drop count) else none

/-- The fraction of a second, as microseconds: a point and one to six digits, or nothing. -/
def fraction : Reader Nat := fun text =>
  match text with
  | '.' :: rest =>
    let values := ((rest.take 6).map decimalValue?).takeWhile Option.isSome |>.reduceOption
    if values = [] then none
    else some (ofDigits 10 values * Nat.pow 10 (6 - values.length), rest.drop values.length)
  | _ => some (0, text)

def atEnd : Reader Bool := fun text => some (text.isEmpty, text)

def date : Reader Date := do
  let year ← digits 4
  mark '-'
  let month ← digits 2
  mark '-'
  return ⟨year, month, ← digits 2⟩

/-- An offset, or nothing at the end of the text. -/
def offset : Reader (Option OffsetFields) := do
  if ← atEnd then return none
  let negative ← (do mark '+'; return false) <|> (do mark '-'; return true)
  let hour ← digits 2
  mark ':'
  let minute ← digits 2
  if ← atEnd then return some { negative, hour, minute }
  mark ':'
  let second ← digits 2
  return some { negative, hour, minute, second, microsecond := ← fraction }

def time : Reader TimeFields := do
  let hour ← digits 2
  mark ':'
  let minute ← digits 2
  mark ':'
  let second ← digits 2
  let microsecond ← fraction
  return { hour, minute, second, microsecond, offset := ← offset }

/-- A date, alone or with a time behind a blank or a `T`, up to the end of the text. -/
def fields : Reader Fields := do
  let day ← date
  if ← atEnd then return ⟨day, none⟩
  mark ' ' <|> mark 'T'
  let time ← time
  if ← atEnd then return ⟨day, some time⟩ else failure

end Reading

/-- The fields of a text in the written form of dates. One line feed may follow it. -/
def fields? (text : List Char) : Option Fields :=
  let body := if text.getLast? = some '\n' then text.dropLast else text
  (Reading.fields.run body).map (·.1)

def OffsetFields.microseconds (o : OffsetFields) : Int :=
  let length := ((o.hour * 60 + o.minute) * 60 + o.second) * 1000000 + o.microsecond
  if o.negative then -(length : Int) else length

/-- The date or time that the fields make, if they are in their ranges. -/
def Fields.moment? (f : Fields) : Option Moment :=
  match f.time with
  | none => if f.date.Valid then some (.date f.date) else none
  | some time =>
    let t : DateTime :=
      { date := f.date, hour := time.hour, minute := time.minute, second := time.second,
        microsecond := time.microsecond, offset := time.offset.map (·.microseconds) }
    if t.Valid then some (.dateTime t) else none

/-! ### Writing -/

/-- A number in decimal, filled up with zeros to a width. -/
def padded (width n : Nat) : String :=
  let digits := toString n
  String.ofList (List.replicate (width - digits.length) '0') ++ digits

def Date.text (d : Date) : String :=
  padded 4 d.year ++ "-" ++ padded 2 d.month ++ "-" ++ padded 2 d.day

/-- A fraction of a second; nothing for none. -/
def fractionText (microsecond : Nat) : String :=
  if microsecond = 0 then "" else "." ++ padded 6 microsecond

/-- An offset: its seconds and their fraction only as far as they are not zero. -/
def offsetText (offset : Int) : String :=
  let length := offset.natAbs
  let seconds := length / 1000000
  let rest := length % 1000000
  (if offset < 0 then "-" else "+") ++ padded 2 (seconds / 3600) ++ ":" ++
    padded 2 (seconds / 60 % 60) ++
    (if seconds % 60 = 0 ∧ rest = 0 then ""
      else ":" ++ padded 2 (seconds % 60) ++ fractionText rest)

/-- A time written with the given separator behind the date. -/
def DateTime.text (separator : String) (t : DateTime) : String :=
  t.date.text ++ separator ++ padded 2 t.hour ++ ":" ++ padded 2 t.minute ++ ":" ++
    padded 2 t.second ++ fractionText t.microsecond ++ (t.offset.map offsetText).getD ""

/-! ### In messages -/

def Date.describe (d : Date) : String := s!"datetime.date({d.year}, {d.month}, {d.day})"

/-- A length of time as whole days and what is left of a day, which is not negative. -/
def describeDuration (microseconds : Int) : String :=
  let days := microseconds.fdiv microsecondsPerDay
  let rest := (microseconds.fmod microsecondsPerDay).toNat
  let named := fun (name : String) (n : Int) => if n = 0 then [] else [name ++ "=" ++ toString n]
  let parts := named "days" days ++ named "seconds" (rest / 1000000 : Nat) ++
    named "microseconds" (rest % 1000000 : Nat)
  "datetime.timedelta(" ++ (if parts = [] then "0" else ", ".intercalate parts) ++ ")"

def describeOffset (offset : Int) : String :=
  if offset = 0 then "datetime.timezone.utc"
  else "datetime.timezone(" ++ describeDuration offset ++ ")"

/-- A time by its fields: its seconds and microseconds only as far as they are not zero. -/
def DateTime.describe (t : DateTime) : String :=
  let d := t.date
  let seconds :=
    if t.microsecond ≠ 0 then [t.second, t.microsecond]
    else if t.second ≠ 0 then [t.second] else []
  let fields := ([d.year, d.month, d.day, t.hour, t.minute] ++ seconds).map toString
  let zone := (t.offset.map fun offset => ["tzinfo=" ++ describeOffset offset]).getD []
  "datetime.datetime(" ++ ", ".intercalate (fields ++ zone) ++ ")"

end LazyConfig.Calendar
