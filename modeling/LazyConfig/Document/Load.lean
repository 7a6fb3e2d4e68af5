import LazyConfig.Evaluation.Inclusion

/-!
# Loading documents

A document is loaded from a text whose root is a mapping. What was loaded before, with its views
and the values that were kept, is dropped. A document that was read from a file stands at this
file: other files are included relative to it.
-/

namespace LazyConfig.Document

open Eval

/-- Adds a document without data. -/
def create (caching : Bool) : Eval DocumentId :=
  addDocument { cache := if caching then some [] else none }

/-- The root of a document: a mapping up to the end of the text, or another container. -/
def rootTree : Syntax.Parser Node := do
  match ← Syntax.withNesting Syntax.container with
  | .mapping entries span =>
    let _ ← Syntax.Parser.expect .eof
    return .mapping entries span
  | other => return other

/-- The chain of files that leads to what the document's parent includes. -/
def outerChain (id : DocumentId) : Eval (List String) := do
  match (← document id).parent with
  | some parent => return (← document parent).includeChain
  | none => return []

/-- Puts a document at a file. -/
def placeAt (id : DocumentId) (name : String) : Eval Unit := do
  let outer ← outerChain id
  let files := (← world).files
  modifyDocument id fun d => d.atFile files outer name

/-- Loads a document from a text, which comes from the named file if there is one of this name. -/
def load (id : DocumentId) (text : Text.Decoded) (name : Option String) : Eval Unit := do
  match ← Evaluation.parsed rootTree text with
  | .mapping entries span =>
    match name.filter (← world).files.isFile with
    | some file => placeAt id file
    | none => pure ()
    -- the new root takes the place of the old one only when its view has been made
    modifyDocument id fun d => { d with views := [] }
    let view ← Evaluation.mappingView id entries span
    modifyDocument id fun d => { d with root := some view, cache := d.cache.map fun _ => [] }
  | other => fail .rootNotMapping other.start

/-- Loads a document from a file. -/
def loadFile (id : DocumentId) (name : String) : Eval Unit := do
  load id (← Evaluation.readFile name) (some name)

end LazyConfig.Document
