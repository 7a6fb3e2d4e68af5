import LazyConfig.Calendar.Iso
import LazyConfig.Evaluation.Basic
import LazyConfig.Text.Quoted

/-!
# Values as text

Two ways to write a value: `describe` is how messages show it, with texts in quotes and views with
what stands in their slots; `interpolated` is how a value goes into a longer text.
-/

namespace LazyConfig.Evaluation

open Eval (shown)

/-- A scalar that is no text, as messages and interpolation write it. -/
def scalarText : Value → Eval String
  | .null => return "null"
  | .absent => return "None"
  | .bool b => return if b then "True" else "False"
  | .number n _ => shown n.text?
  | .date d _ => return d.describe
  | .dateTime t _ => return t.describe
  | .object name _ _ => return "<object " ++ name ++ ">"
  | .function name _ _ _ => return "<function " ++ name ++ ">"
  | .document id => return (← Eval.document id).describe
  | .text s _ => return Text.quoted s
  | _ => return ""

section

variable (describeView : ViewId → Eval String)

mutual

/-- A value as messages show it, given how they show views. -/
def describeWith : Value → Eval String
  | .list items _ => do
    return "[" ++ ", ".intercalate (← describeItems items) ++ "]"
  | .dict entries _ => do
    return "\x7b" ++ ", ".intercalate (← describeEntries entries) ++ "\x7d"
  | .listView id => describeView id
  | .mappingView id => describeView id
  | v => scalarText v

def describeItems : List Value → Eval (List String)
  | [] => return []
  | v :: items => do
    let first ← describeWith v
    return first :: (← describeItems items)

def describeEntries : List (String × Value) → Eval (List String)
  | [] => return []
  | (key, v) :: entries => do
    let first ← describeWith v
    return (Text.quoted key ++ ": " ++ first) :: (← describeEntries entries)

end

/-- A slot that has not been evaluated is shown as its tree. -/
def describeSlot : Slot → Eval String
  | .node node => shown node.describe?
  | .value v => describeWith describeView v

end

/-- A view as messages show it. A view inside itself is not shown again: `around` holds the views
that are being shown, and since none is twice among them, the number of views bounds the depth. -/
def describeView : Nat → List ViewId → ViewId → Eval String
  | 0, _, _ => throw .exhausted
  | depth + 1, around, id => do
    let inner := describeSlot (describeView depth (id :: around))
    match (← get).view id with
    | .list _ slots =>
      if around.contains id then return "ListView([...])"
      return "ListView([" ++ ", ".intercalate (← slots.mapM inner) ++ "])"
    | .mapping _ entries =>
      if around.contains id then return "MappingView(\x7b...\x7d)"
      let items ← entries.mapM fun (key, slot) => return Text.quoted key ++ ": " ++ (← inner slot)
      return "MappingView(\x7b" ++ ", ".intercalate items ++ "\x7d)"

/-- A value as messages show it. -/
def describe (v : Value) : Eval String := do
  describeWith (describeView ((← get).views.size + 2) []) v

mutual

/-- A value as it goes into a text: texts as they are, dates in their written form. -/
def interpolated : Value → Eval String
  | .list items _ => do
    return "[" ++ ", ".intercalate (← interpolatedItems items) ++ "]"
  | .dict entries _ => do
    return "\x7b" ++ ", ".intercalate (← interpolatedEntries entries) ++ "\x7d"
  | .bool b => return if b then "true" else "false"
  | .text s _ => return s
  | .date d _ => return d.text
  | .dateTime t _ => return t.text " "
  | v => scalarText v

def interpolatedItems : List Value → Eval (List String)
  | [] => return []
  | v :: items => do
    let first ← interpolated v
    return first :: (← interpolatedItems items)

def interpolatedEntries : List (String × Value) → Eval (List String)
  | [] => return []
  | (key, v) :: entries => do
    let first ← interpolated v
    return (key ++ ": " ++ first) :: (← interpolatedEntries entries)

end

end LazyConfig.Evaluation
