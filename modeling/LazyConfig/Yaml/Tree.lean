import LazyConfig.Calendar.Iso
import LazyConfig.Value.Basic
import LazyConfig.Yaml.Tag

/-!
# Trees of scalars, sequences and mappings

Values as trees of tagged scalars. A value that is the same object as one before it is written as a
reference to that one, so a tree keeps which object it comes from; texts, truth values and real
numbers are written anew each time. Objects and functions have no tree.
-/

namespace LazyConfig.Yaml

/-- The object that a tree comes from: all nulls are one. -/
inductive Origin where
  | null
  | marked (mark : Mark)
deriving DecidableEq, Repr

inductive Tree where
  | scalar (tag : Tag) (text : String) (origin : Option Origin)
  | sequence (items : List Tree) (origin : Origin)
  | mapping (entries : List (String × Tree)) (origin : Origin)

inductive Fault where
  /-- The value is an object or a function. -/
  | noTree
  | tooManyDigits
deriving DecidableEq, Repr

/-- A binary64 number; one in scientific notation has a point in it. -/
def floatText (x : Float) : String :=
  if x.isNaN then ".nan"
  else if x.isInf then (if x < 0 then "-.inf" else ".inf")
  else
    let text := Decimal.text x
    if text.contains '.' then text
    else ".0e".intercalate (text.splitOn "e")

def intScalar (n : Int) : Except Fault Tree :=
  match Decimal.intText? n with
  | some text => .ok (.scalar .int text none)
  | none => .error .tooManyDigits

mutual

def Tree.ofValue : Value → Except Fault Tree
  | .null => .ok (.scalar .null "null" (some .null))
  | .absent => .ok (.scalar .null "null" none)
  | .bool b => .ok (.scalar .bool (if b then "true" else "false") none)
  | .number (.int n) _ => intScalar n
  | .number (.float x) _ => .ok (.scalar .float (floatText x) none)
  | .number (.complex z) mark => .ok (.scalar .text z.text (some (.marked mark)))
  | .text s _ => .ok (.scalar .text s none)
  | .date d mark => .ok (.scalar .timestamp d.text (some (.marked mark)))
  | .dateTime t mark => .ok (.scalar .timestamp (t.text " ") (some (.marked mark)))
  | .list items mark => do return .sequence (← itemTrees items) (.marked mark)
  | .dict entries mark => do return .mapping (← entryTrees entries) (.marked mark)
  | .object _ _ _ | .function _ _ _ _ => .error .noTree
  | .listView _ | .mappingView _ | .document _ => .error .noTree

def itemTrees : List Value → Except Fault (List Tree)
  | [] => .ok []
  | v :: items => do
    let first ← Tree.ofValue v
    return first :: (← itemTrees items)

def entryTrees : List (String × Value) → Except Fault (List (String × Tree))
  | [] => .ok []
  | (key, v) :: entries => do
    let first ← Tree.ofValue v
    return (key, first) :: (← entryTrees entries)

end

/-! ### Anchors -/

/-- The origins met so far, and those met more than once, the last of them first. -/
structure Census where
  seen : List Origin := []
  repeated : List Origin := []

/-- Takes an origin into account and tells whether it is new; if not, there is no need to look
inside again. -/
def Census.meet (census : Census) (origin : Origin) : Census × Bool :=
  if census.seen.contains origin then
    ({ census with repeated :=
        if census.repeated.contains origin then census.repeated else origin :: census.repeated },
      false)
  else ({ census with seen := origin :: census.seen }, true)

mutual

/-- The origins of a tree and of all trees in it, from the outside in and from the first on. -/
def Census.survey (census : Census) : Tree → Census
  | .scalar _ _ none => census
  | .scalar _ _ (some origin) => (census.meet origin).1
  | .sequence items origin =>
    match census.meet origin with
    | (census, true) => census.surveyItems items
    | (census, false) => census
  | .mapping entries origin =>
    match census.meet origin with
    | (census, true) => census.surveyEntries entries
    | (census, false) => census

def Census.surveyItems (census : Census) : List Tree → Census
  | [] => census
  | tree :: items => (census.survey tree).surveyItems items

def Census.surveyEntries (census : Census) : List (String × Tree) → Census
  | [] => census
  | (_, tree) :: entries => (census.survey tree).surveyEntries entries

end

/-- The origins that a tree meets more than once, in the order in which they are met again. -/
def Tree.repeated (t : Tree) : List Origin := (Census.survey {} t).repeated.reverse

end LazyConfig.Yaml
