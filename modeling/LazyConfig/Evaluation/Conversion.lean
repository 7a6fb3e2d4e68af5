import LazyConfig.Calendar.Iso
import LazyConfig.Conversion.Form
import LazyConfig.Evaluation.Describe
import LazyConfig.Evaluation.View

/-!
# Conversion of texts

A text in backticks stands for what the converter makes of it. The standard converter takes it for a
date, a variable of the environment, a named object or a text with paths to fill in, whichever form
it has first, and leaves all other texts as they are. A text whose conversion needs itself is
circular. In strict documents it is an error that a text stays as it is.
-/

namespace LazyConfig.Evaluation

open Eval

/-- What a converter makes of a text, if it does not leave it as it is. -/
abbrev Converted := Option Value

/-- What a resolver finds under a name. A name that leads nowhere is left as it is. -/
def resolved (name : String) (member : Option String) : Eval Converted := do
  match (← settings).resolver with
  | .table entries =>
    return entries.lookup ((member.map fun member => name ++ ":" ++ member).getD name)
  | .registry =>
    match (← world).registry.resolve name member with
    | .ok v => return some v
    | .error (.needsArguments member) => fail (.needsArguments member)
    | .error .notImportable => return none
    | .error .noAttribute => return none

/-- The text of a piece: a path stands for the value that the document has there. -/
def pieceText (m : Machine) (id : DocumentId) : Conversion.Piece → Eval String
  | .literal text => return text
  | .path text => do interpolated (← m.lookup id text none)

/-- A text with its paths filled in. If an error keeps one from being looked up, the text stays as
it is. -/
def filledIn (m : Machine) (id : DocumentId) (pieces : List Conversion.Piece) : Eval Converted := do
  try
    return some (← joinedText (String.join (← pieces.mapM (pieceText m id))))
  catch failure =>
    match failure with
    | .error _ => return none
    | other => throw other

def isPath : Conversion.Piece → Bool
  | .path _ => true
  | .literal _ => false

/-- What the standard converter makes of a text. -/
def standardConverted (m : Machine) (id : DocumentId) (text : List Char) : Eval Converted := do
  match Calendar.fields? text, Conversion.environmentName? text, Conversion.objectName? text with
  | some fields, _, _ =>
    match fields.moment? with
    | some (.date d) => return some (.date d (← freshMark))
    | some (.dateTime t) => return some (.dateTime t (← freshMark))
    | none => return none
  | none, some (name, standIn), _ =>
    match ((← world).environment.lookup name).or standIn with
    | some found => return some (← newText found)
    | none => return some .null
  | none, none, some (name, member) => resolved name member
  | none, none, none =>
    let pieces := Conversion.pieces text
    if pieces.any isPath then filledIn m id pieces else return none

/-- What the document's converter makes of a text. -/
def converterResult (m : Machine) (id : DocumentId) (text : String) : Eval Converted := do
  match (← settings).converter with
  | .standard => standardConverted m id text.toList
  | .identity => return none
  | .lookup => return some (← m.lookup id text none)
  | .table entries => return entries.lookup text

/-- Converts a text, which is marked as being converted meanwhile. In strict documents the result
must not be the very object that the text is; another one that is equal will do. -/
def convert (m : Machine) (id : DocumentId) (text : String) (mark : Mark) : Eval Value := do
  if (← document id).converting.contains text then fail (.circular ["`" ++ text ++ "`"])
  modifyDocument id fun d => { d with converting := text :: d.converting }
  -- the mark is taken away whether the conversion succeeds or not
  let result ← andFinally (converterResult m id text)
    (modifyDocument id fun d => { d with converting := d.converting.filter (· ≠ text) })
  let unchanged := Value.text text mark
  match result.filter fun v => !v.same unchanged with
  | some v => return v
  | none =>
    if (← settings).strictConversions then fail (.notConverted text)
    return unchanged

end LazyConfig.Evaluation
