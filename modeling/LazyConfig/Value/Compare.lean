import LazyConfig.Value.Basic

/-!
# Comparing values

Equality and order of complete values. Numbers compare by value across their kinds, and inside
containers a truth value counts as zero or one. Containers are equal element by element, where an
element also equals itself. Only numbers, texts, dates and lists are ordered, each with its like.
-/

namespace LazyConfig

namespace Value

/-- The number that a value is in a comparison. -/
def asNumber? : Value → Option Number
  | number n _ => some n
  | bool b => some (.int (if b then 1 else 0))
  | _ => none

mutual

/-- Whether two complete values are equal. -/
def equal : Value → Value → Bool
  | null, w => match w with | null => true | _ => false
  | absent, w => match w with | absent => true | _ => false
  | bool b, w => (w.asNumber?.map (Number.equal (.int (if b then 1 else 0)))).getD false
  | number n _, w => (w.asNumber?.map (Number.equal n)).getD false
  | text s _, w => match w with | text t _ => s = t | _ => false
  | date d _, w => match w with | date e _ => d = e | _ => false
  | dateTime t _, w => match w with | dateTime u _ => t.equal u | _ => false
  | list items _, w => match w with | list others _ => equalItems items others | _ => false
  | dict entries _, w => match w with
    | dict others _ => entries.length = others.length && equalEntries entries others
    | _ => false
  | v, w => v.same w

/-- Whether two lists are equal element by element. -/
def equalItems : List Value → List Value → Bool
  | [], others => others.isEmpty
  | v :: items, others => match others with
    | [] => false
    | w :: others => (v.same w || v.equal w) && equalItems items others

/-- Whether every entry has an equal one under its key. -/
def equalEntries : List (String × Value) → List (String × Value) → Bool
  | [], _ => true
  | (key, v) :: entries, others => match others.lookup key with
    | none => false
    | some w => (v.same w || v.equal w) && equalEntries entries others

end

/-- Whether a value is an element of a list. -/
def elementOf (v : Value) (items : List Value) : Bool := items.any fun w => w.same v || w.equal v

end Value

/-! ### Order -/

/-- The operators that order values. -/
inductive OrderOp where
  | less | lessEqual | greater | greaterEqual
deriving DecidableEq, Repr

namespace OrderOp

def symbol : OrderOp → String
  | less => "<"
  | lessEqual => "<="
  | greater => ">"
  | greaterEqual => ">="

def holds : OrderOp → Ordering → Bool
  | less, o => o = .lt
  | lessEqual, o => o ≠ .gt
  | greater, o => o = .gt
  | greaterEqual, o => o ≠ .lt

end OrderOp

namespace Value

/-- Why two values have no order. -/
inductive OrderFault where
  | types (op : OrderOp) (left right : String)
  | dateAndTime
  | offsets
deriving DecidableEq, Repr

def OrderFault.message : OrderFault → String
  | types op left right =>
    s!"'{op.symbol}' not supported between instances of '{left}' and '{right}'"
  | dateAndTime => "can't compare datetime.datetime to datetime.date"
  | offsets => "can't compare offset-naive and offset-aware datetimes"

/-- How two texts compare, character by character. -/
def compareText (s t : String) : Ordering := compare s t

def compareDate (d e : Calendar.Date) : Ordering :=
  (compare d.year e.year).then ((compare d.month e.month).then (compare d.day e.day))

mutual

/-- Whether an ordering operator holds between two complete values. -/
def order (op : OrderOp) : Value → Value → Except OrderFault Bool
  | text s mark, w => match w with
    | text t _ => .ok (op.holds (compareText s t))
    | w => .error (.types op (text s mark).typeName w.typeName)
  | date d mark, w => match w with
    | date e _ => .ok (op.holds (compareDate d e))
    | dateTime _ _ => .error .dateAndTime
    | w => .error (.types op (date d mark).typeName w.typeName)
  | dateTime t mark, w => match w with
    | date _ _ => .error .dateAndTime
    | dateTime u _ => match t.compare? u with
      | some o => .ok (op.holds o)
      | none => .error .offsets
    | w => .error (.types op (dateTime t mark).typeName w.typeName)
  | list items mark, w => match w with
    | list others _ => orderItems op items others
    | w => .error (.types op (list items mark).typeName w.typeName)
  | v, w =>
    match v.asNumber?.bind fun a => w.asNumber?.bind fun b => a.compare? b with
    | some (some o) => .ok (op.holds o)
    | some none => .ok false
    | none => .error (.types op v.typeName w.typeName)

/-- Lists are ordered by their first elements that differ, or else by their lengths. -/
def orderItems (op : OrderOp) : List Value → List Value → Except OrderFault Bool
  | [], others => .ok (op.holds (if others.isEmpty then .eq else .lt))
  | v :: items, others => match others with
    | [] => .ok (op.holds .gt)
    | w :: others =>
      if v.same w || v.equal w then orderItems op items others else order op v w

end

end Value

end LazyConfig
